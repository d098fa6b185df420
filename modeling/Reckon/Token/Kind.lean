import Reckon.Text.Bytes

/-!
# Token kinds

The closed table of kinds a token can have, in its fixed order, with their
names. A number outside the table still names a kind, `unknown`, which no
reader of tokens accepts. Keywords are kinds with one spelling each; every
other word is an identifier.
-/

namespace Reckon

/-- What a token is. -/
inductive Kind
  | eof
  | leftParen
  | rightParen
  | leftBrace
  | rightBrace
  | comma
  | dot
  | minus
  | plus
  | semicolon
  | slash
  | star
  | bang
  | bangEqual
  | equal
  | equalEqual
  | greater
  | greaterEqual
  | less
  | lessEqual
  | ident
  | string
  | number
  | kwAnd
  | kwClass
  | kwElse
  | kwFalse
  | kwFor
  | kwFun
  | kwIf
  | kwNil
  | kwOr
  | kwPrint
  | kwReturn
  | kwSuper
  | kwThis
  | kwTrue
  | kwVar
  | kwWhile
  /-- A kind outside the table. -/
  | unknown (code : Int)
  deriving DecidableEq, Repr

namespace Kind

/-- The kinds of the table with their names, in order. -/
def table : List (Kind × String) :=
  [(eof, "EOF"), (leftParen, "LEFTPAREN"), (rightParen, "RIGHTPAREN"), (leftBrace, "LEFTBRACE"),
    (rightBrace, "RIGHTBRACE"), (comma, "COMMA"), (dot, "DOT"), (minus, "MINUS"), (plus, "PLUS"),
    (semicolon, "SEMICOLON"), (slash, "SLASH"), (star, "STAR"), (bang, "BANG"),
    (bangEqual, "BANGEQUAL"), (equal, "EQUAL"), (equalEqual, "EQUALEQUAL"), (greater, "GREATER"),
    (greaterEqual, "GREATEREQUAL"), (less, "LESS"), (lessEqual, "LESSEQUAL"), (ident, "IDENT"),
    (string, "STRING"), (number, "NUMBER"), (kwAnd, "AND"), (kwClass, "CLASS"), (kwElse, "ELSE"),
    (kwFalse, "FALSE"), (kwFor, "FOR"), (kwFun, "FUN"), (kwIf, "IF"), (kwNil, "NIL"), (kwOr, "OR"),
    (kwPrint, "PRINT"), (kwReturn, "RETURN"), (kwSuper, "SUPER"), (kwThis, "THIS"),
    (kwTrue, "TRUE"), (kwVar, "VAR"), (kwWhile, "WHILE")]

/-- The kind with a given number. -/
def ofCode (code : Int) : Kind :=
  if code < 0 then unknown code
  else
    match table[code.toNat]? with
    | some (kind, _) => kind
    | none => unknown code

/-- The kind with a given name. -/
def ofName? (name : String) : Option Kind :=
  (table.find? fun entry => entry.2 == name).map Prod.fst

/-- The name of a kind; kinds outside the table show their number. -/
def name (kind : Kind) : Bytes :=
  match kind with
  | unknown code => Bytes.ofString "Kind(" ++ Bytes.ofInt code ++ Bytes.ofString ")"
  | _ =>
    match table.find? fun entry => entry.1 == kind with
    | some (_, text) => Bytes.ofString text
    | none => []

/-! ## Keywords -/

/-- The keywords with their spellings. -/
def keywords : List (Bytes × Kind) :=
  [("and", kwAnd), ("class", kwClass), ("else", kwElse), ("false", kwFalse), ("for", kwFor),
    ("fun", kwFun), ("if", kwIf), ("nil", kwNil), ("or", kwOr), ("print", kwPrint),
    ("return", kwReturn), ("super", kwSuper), ("this", kwThis), ("true", kwTrue), ("var", kwVar),
    ("while", kwWhile)].map fun entry => (Bytes.ofString entry.1, entry.2)

/-- The keyword that a word spells, if it is one. -/
def keyword? (word : Bytes) : Option Kind := keywords.lookup word

/-- The kind of a word: its keyword, or an identifier. -/
def ofWord (word : Bytes) : Kind := (keyword? word).getD ident

end Kind

end Reckon
