import Reckon.Number.Layout
import Reckon.Text.Quoted
import Reckon.Token.Kind

/-!
# Tokens

A token has a kind, the bytes it was read from, the line on which it ends, and
for literals a payload. Tokens that stand for an operator of an expression tree
come from no source text; they carry the line `syntheticLine`.
-/

namespace Reckon

/-- The value that a literal token carries. The source reader gives doubles and
texts only; the other forms come from hand-made tokens. -/
inductive Payload
  | absent
  | double (value : Double)
  /-- A machine integer of 64 bits. -/
  | integer (value : Int64)
  /-- An integer of 32 bits. -/
  | short (value : Int32)
  /-- An integer declared to have 64 bits, which no expression can hold. -/
  | long (value : Int64)
  | text (value : Bytes)
  | truth (value : Bool)
  deriving DecidableEq, Repr

/-- The word for a truth value. -/
def truthWord (b : Bool) : Bytes := if b then Bytes.ofString "true" else Bytes.ofString "false"

namespace Payload

/-- The payload as it is shown in descriptions: texts stand as they are. -/
def describe : Payload → Bytes
  | absent => Bytes.ofString "<nil>"
  | double d => d.text .payload
  | integer n => Bytes.ofInt n.toInt
  | short n => Bytes.ofInt n.toInt
  | long n => Bytes.ofInt n.toInt
  | text t => t
  | truth b => truthWord b

end Payload

/-- A token. -/
structure Token where
  kind : Kind
  lexeme : Bytes
  line : Int
  payload : Payload := .absent
  deriving DecidableEq, Repr

namespace Token

/-- The line of tokens that were not read from a source. -/
def syntheticLine : Int := -1

/-- The token of an operator, made up rather than read. -/
def synthetic (kind : Kind) (lexeme : Bytes) : Token := ⟨kind, lexeme, syntheticLine, .absent⟩

/-- The token that stands past the end of every token list. -/
def pastEnd : Token := ⟨.eof, [], 1, .absent⟩

/-- Whether a token was made up rather than read. -/
def isSynthetic (t : Token) : Bool := t.line == syntheticLine

/-- A full description of a token: kind, quoted lexeme, line, payload. -/
def describe (t : Token) : Bytes :=
  Bytes.ofString "\x7b" ++ t.kind.name ++ Bytes.ofString ", " ++ t.lexeme.quoted
    ++ Bytes.ofString ", " ++ Bytes.ofInt t.line ++ Bytes.ofString ", " ++ t.payload.describe
    ++ Bytes.ofString "\x7d"

/-- Where a token stands, as error messages say it. -/
def place (t : Token) : Bytes :=
  if t.kind = .eof then Bytes.ofString " at end"
  else Bytes.ofString " at '" ++ t.lexeme ++ Bytes.ofString "'"

end Token

end Reckon
