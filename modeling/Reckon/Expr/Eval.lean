import Reckon.Expr.Basic

/-!
# Evaluation

Operands are evaluated from left to right, then the operator is applied; `or`
and `and` leave their right operand alone when the left one is exactly the
boolean that decides. Arithmetic stays in 32-bit integers while both operands
are integers and wraps there; otherwise numbers are widened to doubles. An
operator applied to unfit operands fails with its own token.
-/

namespace Reckon

/-- A failed operation: the token of the operator and what it wants. -/
structure RuntimeError where
  token : Token
  message : Bytes
  deriving DecidableEq, Repr

/-- The text of a failed operation. Made-up tokens have no line to show. -/
def RuntimeError.text (e : RuntimeError) : Bytes :=
  if e.token.isSynthetic then
    e.message ++ Bytes.ofString " at '" ++ e.token.lexeme ++ Bytes.ofString "'"
  else e.message ++ Bytes.ofString "\n[line " ++ Bytes.ofInt e.token.line ++ Bytes.ofString "]"

/-- Why operands do not fit their operator. -/
inductive Misfit
  | zeroDivisor
  | notNumber
  | notNumbers
  | notAddable
  deriving DecidableEq, Repr

/-- The wording of a misfit. -/
def Misfit.message : Misfit → Bytes
  | zeroDivisor => Bytes.ofString "Cannot divide by zero"
  | notNumber => Bytes.ofString "Operand must be a number."
  | notNumbers => Bytes.ofString "Operands must be numbers."
  | notAddable => Bytes.ofString "Operands must be two numbers or a string."

/-- Why an expression has no value. -/
inductive Failure
  /-- An operation failed. -/
  | runtime (error : RuntimeError)
  /-- The tree is broken. -/
  | fault (fault : Fault)
  deriving DecidableEq, Repr

/-- What evaluation gives. -/
abbrev Outcome := Except Failure Value

namespace Value

/-- A number as a double. -/
def toDouble? : Value → Option Double
  | int n => some (Double.ofInt n.toInt)
  | double d => some d
  | _ => none

/-- Whether a value is a number equal to zero. -/
def isZero (v : Value) : Bool :=
  match v.toDouble? with
  | some d => d.equal (Double.ofInt 0)
  | none => false

/-- Whether two values are of one type and equal; doubles are compared as
numbers. -/
def same : Value → Value → Bool
  | nil, nil => true
  | bool a, bool b => a == b
  | int a, int b => a == b
  | double a, double b => a.equal b
  | text a, text b => a == b
  | _, _ => false

/-- Whether a value is a text. -/
def isText : Value → Bool
  | text _ => true
  | _ => false

/-- Both values as doubles, if both are numbers. -/
def toDoubles? (l r : Value) : Option (Double × Double) :=
  match l.toDouble?, r.toDouble? with
  | some a, some b => some (a, b)
  | _, _ => none

/-- Compares two numbers as doubles. -/
def compare (rel : Double → Double → Bool) (l r : Value) : Except Misfit Value :=
  match toDoubles? l r with
  | some (a, b) => .ok (bool (rel a b))
  | none => .error .notNumbers

/-- Computes with two numbers, in integers if both are integers. -/
def arithmetic (onInts : Int32 → Int32 → Int32) (onDoubles : Double → Double → Double) :
    Value → Value → Except Misfit Value
  | int a, int b => .ok (int (onInts a b))
  | l, r =>
    match toDoubles? l r with
    | some (a, b) => .ok (double (onDoubles a b))
    | none => .error .notNumbers

/-- Adds numbers, and joins texts when either value is one. -/
def plus : Value → Value → Except Misfit Value
  | int a, int b => .ok (int (a + b))
  | l, r =>
    if l.isText || r.isText then .ok (text (l.display ++ r.display))
    else
      match toDoubles? l r with
      | some (a, b) => .ok (double (a.add b))
      | none => .error .notAddable

/-- Divides numbers; a divisor of zero is found before anything else. -/
def quotient (l r : Value) : Except Misfit Value :=
  if r.isZero then .error .zeroDivisor else arithmetic (· / ·) Double.div l r

/-- The value with its sign flipped. -/
def negated : Value → Except Misfit Value
  | int n => .ok (int (-n))
  | double d => .ok (double d.neg)
  | _ => .error .notNumber

end Value

/-! ## Operators at work -/

/-- The result of an operator, a misfit being charged to the operator's token. -/
def charge (token : Except Fault Token) : Except Misfit Value → Outcome
  | .ok v => .ok v
  | .error misfit =>
    match token with
    | .ok t => .error (.runtime ⟨t, misfit.message⟩)
    | .error fault => .error (.fault fault)

/-- The value of a unary operator at its operand. -/
def UnaryOp.apply (op : UnaryOp) (v : Value) : Outcome :=
  match op with
  | .negative => charge op.token v.negated
  | .not => .ok (.bool !v.truthy)
  | .unknown code => .error (.fault (.unaryMeaning code))

/-- The value of a binary operator at two evaluated operands. -/
def BinaryOp.apply (op : BinaryOp) (l r : Value) : Outcome :=
  match op with
  | .eq => .ok (.bool (l.same r))
  | .notEq => .ok (.bool !l.same r)
  | .less => charge op.token (Value.compare Double.less l r)
  | .greater => charge op.token (Value.compare (fun a b => b.less a) l r)
  | .lessEq => charge op.token (Value.compare Double.lessEq l r)
  | .greaterEq => charge op.token (Value.compare (fun a b => b.lessEq a) l r)
  | .add => charge op.token (Value.plus l r)
  | .subtract => charge op.token (Value.arithmetic (· - ·) Double.sub l r)
  | .multiply => charge op.token (Value.arithmetic (· * ·) Double.mul l r)
  | .divide => charge op.token (Value.quotient l r)
  | .or | .and => .ok r
  | .unknown code => .error (.fault (.binaryMeaning code))

/-- The left value that makes a connective ignore its right operand. -/
def BinaryOp.decidedBy? : BinaryOp → Option Value
  | .or => some (.bool true)
  | .and => some (.bool false)
  | _ => none

/-- The outcome of an expression. -/
def Expr.eval : Expr → Outcome
  | .missing => .error (.fault .missingExpr)
  | .literal v => .ok v
  | .grouping e => e.eval
  | .unary op e =>
    match e.eval with
    | .ok v => op.apply v
    | .error failure => .error failure
  | .binary l op r =>
    match l.eval with
    | .error failure => .error failure
    | .ok left =>
      if op.decidedBy? = some left then .ok left
      else
        match r.eval with
        | .error failure => .error failure
        | .ok right => op.apply left right

end Reckon
