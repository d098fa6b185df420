import Reckon.Expr.Basic

/-!
# Printed expressions

Four ways to write a tree: a debugging form that shows every node, and the
infix, postfix and bracketed forms. The latter three write leaves alike: texts
stand between quotes with nothing escaped, and so do the words for truth values
and `nil`.
-/

namespace Reckon

/-- The elements between parentheses, separated by spaces. -/
def parenthesized (elements : List Bytes) : Bytes :=
  Ascii.leftParen :: Bytes.join [Ascii.space] elements ++ [Ascii.rightParen]

namespace Value

/-- The text of a literal in the debugging form: texts are quoted. -/
def debugText : Value → Bytes
  | text t => t.quoted
  | v => v.display

/-- The text of a leaf in the printed forms. -/
def leafText : Value → Bytes
  | int n => (int n).display
  | double d => (double d).display
  | v => Bytes.inQuotes v.display

end Value

namespace Expr

/-! ## The debugging form -/

/-- Writes each node with its name. -/
def debugging : Algebra Bytes where
  literal v := parenthesized [Bytes.ofString "literal", v.debugText]
  grouping inner := parenthesized [Bytes.ofString "grouping", inner]
  unary op operand := do
    return parenthesized [Bytes.ofString "unary", ← op.symbol, operand]
  binary left op right := do
    return parenthesized [Bytes.ofString "binary", left, ← op.symbol, right]

/-- The debugging form of a tree. A literal that is the whole tree stands alone. -/
def debugText : Expr → Except Fault Bytes
  | missing => .error .missingTree
  | literal v => .ok v.debugText
  | e => e.fold debugging

/-! ## The printed forms -/

/-- Writes operators between and before their operands; parentheses only where
the tree has a grouping. -/
def infixed : Algebra Bytes where
  literal := Value.leafText
  grouping inner := Ascii.leftParen :: inner ++ [Ascii.rightParen]
  unary op operand := do return (← op.symbol) ++ operand
  binary left op right := do return left ++ Ascii.space :: (← op.symbol) ++ Ascii.space :: right

/-- The mark of a unary operator in the postfix form, where a minus would be
taken for a subtraction. -/
def postfixMark : UnaryOp → Except Fault Bytes
  | .negative => .ok [Ascii.tilde]
  | .not => .ok [Ascii.bang]
  | .unknown code => .error (.unaryMeaning code)

/-- Writes binary operators after their operands. -/
def postfixed : Algebra Bytes where
  literal := Value.leafText
  grouping inner := Ascii.leftParen :: inner ++ [Ascii.rightParen]
  unary op operand := do return (← postfixMark op) ++ operand
  binary left op right := do return left ++ Ascii.space :: right ++ Ascii.space :: (← op.symbol)

/-- Writes each node in parentheses with its operator first. -/
def bracketed : Algebra Bytes where
  literal := Value.leafText
  grouping inner := parenthesized [Bytes.ofString "group", inner]
  unary op operand := do return parenthesized [← op.symbol, operand]
  binary left op right := do return parenthesized [← op.symbol, left, right]

end Expr

/-! ## Modes -/

/-- A printed form. -/
inductive Form
  | infixForm
  | rpn
  | lispy
  deriving DecidableEq, Repr

namespace Form

/-- The name of a form. -/
def name : Form → Bytes
  | infixForm => Bytes.ofString "infix"
  | rpn => Bytes.ofString "rpn"
  | lispy => Bytes.ofString "lispy"

/-- The algebra that writes a form. -/
def algebra : Form → Algebra Bytes
  | infixForm => Expr.infixed
  | rpn => Expr.postfixed
  | lispy => Expr.bracketed

/-- A tree in a form. -/
def print (form : Form) (e : Expr) : Except Fault Bytes := e.fold form.algebra

/-- All forms. -/
def all : List Form := [infixForm, rpn, lispy]

/-- The code point of a lower-case ASCII letter that a code point is the capital
of; other code points stay. Beside the ASCII capitals these are the dotted
capital I and the Kelvin sign. -/
def lowerAscii (code : Nat) : Nat :=
  if 65 ≤ code ∧ code ≤ 90 then code + 32
  else if code = 0x130 then 105
  else if code = 0x212A then 107
  else code

/-- A word with its capitals turned to lower case, as far as ASCII can tell. -/
def lowerWord (word : Bytes) : Bytes :=
  (Utf8.units word).flatMap fun u =>
    match u with
    | .scalar code bytes => if lowerAscii code = code then bytes else Utf8.encode (lowerAscii code)
    | .stray b => [b]

/-- The form that a word names in any case. -/
def ofWord? (word : Bytes) : Option Form := all.find? fun form => form.name == lowerWord word

/-- What is said of a word that names no form. -/
def unknownMessage (word : Bytes) : Bytes :=
  Bytes.ofString "unknown print mode " ++ word.quoted
    ++ Bytes.ofString ": want infix, rpn or lispy"

end Form

/-- What is done with the expressions of a source: they are evaluated, or printed
in a form. Other numbers name modes that do not exist. -/
inductive Mode
  | evaluate
  | print (form : Form)
  | unknown (code : Int)
  deriving DecidableEq, Repr

namespace Mode

/-- The mode with a given number. -/
def ofCode (code : Int) : Mode :=
  if code = 0 then evaluate
  else if code = 1 then print .infixForm
  else if code = 2 then print .rpn
  else if code = 3 then print .lispy
  else unknown code

/-- The number of a mode. -/
def code : Mode → Int
  | evaluate => 0
  | print .infixForm => 1
  | print .rpn => 2
  | print .lispy => 3
  | unknown n => n

/-- The name of a mode: that of its form, or its number. -/
def name : Mode → Bytes
  | print form => form.name
  | mode => Bytes.ofString "Mode(" ++ Bytes.ofInt mode.code ++ Bytes.ofString ")"

/-- A tree printed in a mode; only modes with a form can print. -/
def render (mode : Mode) (e : Expr) : Except Fault Bytes :=
  match mode with
  | print form => form.print e
  | _ => .error (.printMode mode.code)

end Mode

end Reckon
