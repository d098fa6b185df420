import Reckon.Token.Basic

/-!
# Operators

The binary and unary operators in their fixed order, the token kinds that spell
them, and how tightly the binary ones bind. Trees can be made by hand with an
operator number outside the tables; such an operator has a number and a name
but neither symbol nor meaning.
-/

namespace Reckon

/-- An operator with two operands. -/
inductive BinaryOp
  | eq
  | notEq
  | less
  | greater
  | lessEq
  | greaterEq
  | add
  | subtract
  | multiply
  | divide
  | or
  | and
  /-- An operator outside the table. -/
  | unknown (code : Int)
  deriving DecidableEq, Repr

namespace BinaryOp

/-- The operators of the table, in order. -/
def table : List BinaryOp :=
  [eq, notEq, less, greater, lessEq, greaterEq, add, subtract, multiply, divide, or, and]

/-- The operator with a given number. -/
def ofCode (code : Int) : BinaryOp :=
  if code < 0 then unknown code else table.getD code.toNat (unknown code)

/-- The number of an operator. -/
def code : BinaryOp → Int
  | unknown n => n
  | op => table.idxOf op

/-- The token kind and the symbol of an operator of the table. -/
def spelling? : BinaryOp → Option (Kind × Bytes)
  | eq => some (.equalEqual, Bytes.ofString "==")
  | notEq => some (.bangEqual, Bytes.ofString "!=")
  | less => some (.less, Bytes.ofString "<")
  | greater => some (.greater, Bytes.ofString ">")
  | lessEq => some (.lessEqual, Bytes.ofString "<=")
  | greaterEq => some (.greaterEqual, Bytes.ofString ">=")
  | add => some (.plus, Bytes.ofString "+")
  | subtract => some (.minus, Bytes.ofString "-")
  | multiply => some (.star, Bytes.ofString "*")
  | divide => some (.slash, Bytes.ofString "/")
  | or => some (.kwOr, Bytes.ofString "or")
  | and => some (.kwAnd, Bytes.ofString "and")
  | unknown _ => none

/-- The operator that a token kind spells between two operands. -/
def ofKind? : Kind → Option BinaryOp
  | .equalEqual => some eq
  | .bangEqual => some notEq
  | .less => some less
  | .greater => some greater
  | .lessEqual => some lessEq
  | .greaterEqual => some greaterEq
  | .plus => some add
  | .minus => some subtract
  | .star => some multiply
  | .slash => some divide
  | .kwOr => some or
  | .kwAnd => some and
  | _ => none

/-- How tightly an operator binds: `or` most loosely, then `and`, equality,
comparison, sums and products. -/
def level : BinaryOp → Nat
  | unknown _ => 0
  | or => 1
  | and => 2
  | eq | notEq => 3
  | less | greater | lessEq | greaterEq => 4
  | add | subtract => 5
  | multiply | divide => 6

/-- The symbol of an operator, or its number if it has none. -/
def name (op : BinaryOp) : Bytes :=
  match op.spelling? with
  | some (_, symbol) => symbol
  | none => Bytes.ofString "BinaryOperator(" ++ Bytes.ofInt op.code ++ Bytes.ofString ")"

/-- A kind spells the operator whose spelling it is, and no other. -/
theorem ofKind?_eq_some_iff (kind : Kind) (op : BinaryOp) :
    ofKind? kind = some op ↔ ∃ symbol, op.spelling? = some (kind, symbol) := by
  constructor
  · intro h
    cases kind <;> simp [ofKind?] at h <;> subst h <;> exact ⟨_, rfl⟩
  · rintro ⟨symbol, h⟩
    cases op <;> simp [spelling?] at h <;> obtain ⟨rfl, _⟩ := h <;> rfl

end BinaryOp

/-- An operator with one operand. -/
inductive UnaryOp
  | negative
  | not
  /-- An operator outside the table. -/
  | unknown (code : Int)
  deriving DecidableEq, Repr

namespace UnaryOp

/-- The operators of the table, in order. -/
def table : List UnaryOp := [negative, not]

/-- The operator with a given number. -/
def ofCode (code : Int) : UnaryOp :=
  if code < 0 then unknown code else table.getD code.toNat (unknown code)

/-- The number of an operator. -/
def code : UnaryOp → Int
  | unknown n => n
  | op => table.idxOf op

/-- The token kind and the symbol of an operator of the table. -/
def spelling? : UnaryOp → Option (Kind × Bytes)
  | negative => some (.minus, Bytes.ofString "-")
  | not => some (.bang, Bytes.ofString "!")
  | unknown _ => none

/-- The operator that a token kind spells before an operand. -/
def ofKind? : Kind → Option UnaryOp
  | .minus => some negative
  | .bang => some not
  | _ => none

/-- The symbol of an operator, or its number if it has none. -/
def name (op : UnaryOp) : Bytes :=
  match op.spelling? with
  | some (_, symbol) => symbol
  | none => Bytes.ofString "UnaryOperator(" ++ Bytes.ofInt op.code ++ Bytes.ofString ")"

/-- A kind spells the operator whose spelling it is, and no other. -/
theorem ofKind?_eq_some_iff (kind : Kind) (op : UnaryOp) :
    ofKind? kind = some op ↔ ∃ symbol, op.spelling? = some (kind, symbol) := by
  constructor
  · intro h
    cases kind <;> simp [ofKind?] at h <;> subst h <;> exact ⟨_, rfl⟩
  · rintro ⟨symbol, h⟩
    cases op <;> simp [spelling?] at h <;> obtain ⟨rfl, _⟩ := h <;> rfl

end UnaryOp

end Reckon
