import Reckon.Expr.Operator

/-!
# Faults

A fault is a breach of contract by the caller: a tree with a missing part or an
operator outside the tables, a print mode that does not exist, a literal token
whose payload no expression can hold. A kind that the reader takes for an operator
and that the tables do not know would be a breach by the reader itself. Source text
never leads to a fault. Each fault is a cause; the wording is in one place,
`Fault.message`.
-/

namespace Reckon

/-- A breach of contract found while working on tokens or trees. -/
inductive Fault
  /-- A part of a tree is missing. -/
  | missingExpr
  /-- There is no tree at all. -/
  | missingTree
  /-- The symbol of a binary operator outside the table was asked for. -/
  | binarySymbol (code : Int)
  /-- The symbol of a unary operator outside the table was asked for. -/
  | unarySymbol (code : Int)
  /-- A binary operator without a meaning was met. -/
  | binaryMeaning (code : Int)
  /-- A unary operator without a meaning was met. -/
  | unaryMeaning (code : Int)
  /-- A print mode that does not exist was asked for. -/
  | printMode (code : Int)
  /-- A literal token carries an integer of more than 32 bits. -/
  | wideInteger (value : Int64) (token : Token)
  /-- A literal token carries no payload that an expression can hold. -/
  | payload (token : Token)
  /-- A token is taken for a binary operator that its kind does not spell. -/
  | noBinary (token : Token)
  /-- A token is taken for a unary operator that its kind does not spell. -/
  | noUnary (token : Token)
  deriving DecidableEq, Repr

namespace Fault

/-- The wording of a look-up at `index` in a table of `length` entries. -/
def outOfRange (index : Int) (length : Nat) : Bytes :=
  Bytes.ofString "runtime error: index out of range [" ++ Bytes.ofInt index
    ++ (if index < 0 then Bytes.ofString "]"
      else Bytes.ofString "] with length " ++ Bytes.digits length)

/-- The wording of a fault. -/
def message : Fault → Bytes
  | missingExpr => Bytes.ofString "unexpected expression <nil>"
  | missingTree =>
    Bytes.ofString "runtime error: invalid memory address or nil pointer dereference"
  | binarySymbol code => outOfRange code BinaryOp.table.length
  | unarySymbol code => outOfRange code UnaryOp.table.length
  | binaryMeaning code =>
    Bytes.ofString "unexpected binary operator " ++ (BinaryOp.unknown code).name
  | unaryMeaning code =>
    Bytes.ofString "unexpected unary operator " ++ (UnaryOp.unknown code).name
  | printMode code => Bytes.ofString "unexpected print mode " ++ Bytes.ofInt code
  | wideInteger value token =>
    Bytes.ofString "integer literal " ++ Bytes.ofInt value.toInt
      ++ Bytes.ofString " out of int32 range in " ++ token.describe
  | payload token =>
    Bytes.ofString "unrecognized literal " ++ token.payload.describe
      ++ Bytes.ofString " in " ++ token.describe
  | noBinary token => Bytes.ofString "no binary operator for " ++ token.describe
  | noUnary token => Bytes.ofString "no unary operator for " ++ token.describe

end Fault

namespace BinaryOp

/-- The symbol of an operator. -/
def symbol (op : BinaryOp) : Except Fault Bytes :=
  match op.spelling? with
  | some (_, symbol) => .ok symbol
  | none => .error (.binarySymbol op.code)

/-- A token that stands for an operator. -/
def token (op : BinaryOp) : Except Fault Token :=
  match op.spelling? with
  | some (kind, symbol) => .ok (Token.synthetic kind symbol)
  | none => .error (.binarySymbol op.code)

end BinaryOp

namespace UnaryOp

/-- The symbol of an operator. -/
def symbol (op : UnaryOp) : Except Fault Bytes :=
  match op.spelling? with
  | some (_, symbol) => .ok symbol
  | none => .error (.unarySymbol op.code)

/-- A token that stands for an operator. -/
def token (op : UnaryOp) : Except Fault Token :=
  match op.spelling? with
  | some (kind, symbol) => .ok (Token.synthetic kind symbol)
  | none => .error (.unarySymbol op.code)

end UnaryOp

end Reckon
