import Reckon.Expr.Basic

/-!
# Reading expressions from tokens

The reader keeps a stack of unfinished parts (open parentheses, unary operators
and left halves of binary ones) and takes one token at a time. In a state it
either wants an operand or holds one. A binary operator first closes all parts
that bind at least as tightly as itself, so that chains lean to the left; a
closing parenthesis closes everything up to its partner. The first token that
cannot be taken ends the expression or is the error.

A batch of expressions separated by semicolons is read with recovery: after an
error the reader goes on behind the next semicolon or at the next word that
starts a statement. Reading never passes an end-of-input token, and what is left
is a suffix of what was given (`rest_isSuffix_read`), strictly shorter after
every unit of a batch, so reading ends.
-/

namespace Reckon

/-- An error located at a token. -/
structure SyntaxError where
  token : Token
  message : Bytes
  deriving DecidableEq, Repr

/-- The text of a located error. -/
def SyntaxError.text (e : SyntaxError) : Bytes :=
  Bytes.ofString "[line " ++ Bytes.ofInt e.token.line ++ Bytes.ofString "] Error"
    ++ e.token.place ++ Bytes.ofString ": " ++ e.message

namespace Parser

/-- What the reader waits for. -/
inductive Wanted
  | expression
  | closingParen
  | separator
  deriving DecidableEq, Repr

/-- The wording of a disappointment. -/
def Wanted.message : Wanted → Bytes
  | expression => Bytes.ofString "Expect expression."
  | closingParen => Bytes.ofString "Expect ')' after expression."
  | separator => Bytes.ofString "Expect ';' after expression."

/-- The error of meeting a token in place of what is wanted. -/
def Wanted.missedAt (wanted : Wanted) (t : Token) : SyntaxError := ⟨t, wanted.message⟩

/-! ## Unfinished parts -/

/-- A part of an expression that waits for what is on its right. -/
inductive Frame
  | paren
  | unary (op : UnaryOp)
  | binary (left : Expr) (op : BinaryOp)
  deriving DecidableEq, Repr

/-- Where the reader stands: its unfinished parts, innermost first, and the
operand it holds if it holds one. -/
inductive State
  | wanting (frames : List Frame)
  | holding (frames : List Frame) (operand : Expr)
  deriving DecidableEq, Repr

/-- Completes the parts that bind at least as tightly as `level` with an
operand. -/
def collapse (level : Nat) : List Frame → Expr → List Frame × Expr
  -- Unary operators bind more tightly than any binary one.
  | .unary op :: outer, e => collapse level outer (.unary op e)
  | .binary l op :: outer, e =>
    if level ≤ op.level then collapse level outer (.binary l op e) else (.binary l op :: outer, e)
  | frames, e => (frames, e)

/-- Completes all parts up to the innermost open parenthesis, and gives what is
outside it; there is nothing outside if no parenthesis is open. -/
def enclosed : List Frame → Expr → Expr × Option (List Frame)
  | [], e => (e, none)
  | .paren :: outer, e => (e, some outer)
  | .unary op :: outer, e => enclosed outer (.unary op e)
  | .binary l op :: outer, e => enclosed outer (.binary l op e)

/-! ## Steps -/

/-- The value of a literal token. -/
def literal (t : Token) : Except Fault Value :=
  match t.payload with
  | .text s => .ok (.text s)
  | .integer n =>
    if -2147483648 ≤ n.toInt ∧ n.toInt ≤ 2147483647 then .ok (.int n.toInt32)
    else .error (.wideInteger n t)
  | .short n => .ok (.int n)
  | .double d => .ok (.double d)
  | .absent | .long _ | .truth _ => .error (.payload t)

/-- The kinds that join operands: a list for each level of the grammar, the loosest
level first. -/
def joinings : List (List Kind) :=
  [[.kwOr], [.kwAnd], [.bangEqual, .equalEqual], [.greater, .greaterEqual, .less, .lessEqual],
    [.minus, .plus], [.slash, .star]]

/-- The level at which a kind joins operands, counted from one; none if it joins
none. -/
def joiningLevel? (kind : Kind) : Option Nat :=
  (joinings.findIdx? fun kinds => kinds.contains kind).map (· + 1)

/-- The kinds that stand before an operand. -/
def markings : List Kind := [.bang, .minus]

/-- Takes a token that stands before an operand. -/
def takeMarking (frames : List Frame) (t : Token) : Except Fault State :=
  match UnaryOp.ofKind? t.kind with
  | some op => .ok (.wanting (.unary op :: frames))
  | none => .error (.noUnary t)

/-- Takes a token with which a primary starts: a constant, a literal or an open
parenthesis. -/
def takePrimary (frames : List Frame) (t : Token) : Option (Except Fault State) :=
  match t.kind with
  | .kwTrue => some (.ok (.holding frames (.literal (.bool true))))
  | .kwFalse => some (.ok (.holding frames (.literal (.bool false))))
  | .kwNil => some (.ok (.holding frames (.literal .nil)))
  | .number | .string => some ((literal t).map fun v => .holding frames (.literal v))
  | .leftParen => some (.ok (.wanting (.paren :: frames)))
  | _ => none

/-- Takes a token where an operand is wanted, if an operand can start with it. -/
def takeOperand (frames : List Frame) (t : Token) : Option (Except Fault State) :=
  if markings.contains t.kind then some (takeMarking frames t) else takePrimary frames t

/-- Takes a token that joins what is on its left, down to a level, to what will be on
its right. -/
def takeJoining (level : Nat) (frames : List Frame) (operand : Expr) (t : Token) :
    Except Fault State :=
  match BinaryOp.ofKind? t.kind with
  | some op =>
    let (outer, left) := collapse level frames operand
    .ok (.wanting (.binary left op :: outer))
  | none => .error (.noBinary t)

/-- Takes a closing parenthesis, if one is open. -/
def takeClosing (frames : List Frame) (operand : Expr) : Option State :=
  match enclosed frames operand with
  | (inner, some outer) => some (.holding outer (.grouping inner))
  | (_, none) => none

/-- Takes a token after an operand, if the expression can go on with it. -/
def takeOperator (frames : List Frame) (operand : Expr) (t : Token) :
    Option (Except Fault State) :=
  match joiningLevel? t.kind with
  | some level => some (takeJoining level frames operand t)
  | none => if t.kind = .rightParen then (takeClosing frames operand).map .ok else none

/-- Takes a token, if it belongs to the expression. A literal that no expression can
hold is a fault, and so is an operator that the tables do not know. -/
def take : State → Token → Option (Except Fault State)
  | .wanting frames, t => takeOperand frames t
  | .holding frames operand, t => takeOperator frames operand t

/-- What the reader has when no further token belongs to the expression. -/
def finish : State → Except Wanted Expr
  | .wanting _ => .error .expression
  | .holding frames operand =>
    match enclosed frames operand with
    | (whole, none) => .ok whole
    | (_, some _) => .error .closingParen

/-! ## One expression -/

/-- What reading gives, with the tokens that are left. -/
inductive Reading
  | ok (e : Expr) (rest : List Token)
  | wrong (error : SyntaxError) (rest : List Token)
  | fault (fault : Fault) (rest : List Token)
  deriving DecidableEq, Repr

/-- The tokens that a reading leaves. -/
def Reading.rest : Reading → List Token
  | ok _ rest => rest
  | wrong _ rest => rest
  | fault _ rest => rest

/-- The error of a reading that went wrong. -/
def Reading.errors : Reading → List SyntaxError
  | wrong error _ => [error]
  | ok _ _ | fault _ _ => []

/-- Stops at a token that does not belong to the expression. -/
def stop (s : State) (t : Token) (rest : List Token) : Reading :=
  match finish s with
  | .ok e => .ok e rest
  | .error wanted => .wrong (wanted.missedAt t) rest

/-- Reads on from a state. -/
def read : State → List Token → Reading
  | s, [] => stop s Token.pastEnd []
  | s, t :: rest =>
    match take s t with
    | none => stop s t (t :: rest)
    | some (.ok next) => read next rest
    | some (.error fault) => .fault fault rest

/-- Reads one expression. -/
def readExpr (tokens : List Token) : Reading := read (.wanting []) tokens

/-! ## Batches -/

/-- Whether no token is left before the end of input. -/
def atEnd : List Token → Bool
  | [] => true
  | t :: _ => t.kind == .eof

/-- Whether a kind starts a statement, where reading can resume. -/
def startsStatement : Kind → Bool
  | .kwClass | .kwFor | .kwFun | .kwIf | .kwPrint | .kwReturn | .kwVar | .kwWhile => true
  | _ => false

/-- Drops a token, and all tokens after it up to a place to resume. -/
def resume : List Token → List Token
  | [] => []
  | t :: rest =>
    if t.kind = .eof then t :: rest
    else if t.kind = .semicolon then rest
    else
      match rest with
      | [] => []
      | u :: more => if startsStatement u.kind then u :: more else resume (u :: more)

/-- Reads an expression and the semicolon after it; the last expression needs
none. -/
def readUnit (tokens : List Token) : Reading :=
  match readExpr tokens with
  | .ok e [] => .ok e []
  | .ok e (t :: rest) =>
    if t.kind = .eof then .ok e (t :: rest)
    else if t.kind = .semicolon then .ok e rest
    else .wrong (Wanted.separator.missedAt t) (t :: rest)
  | other => other

/-! ## Reading makes progress -/

theorem rest_isSuffix_read (s : State) (tokens : List Token) :
    (read s tokens).rest <:+ tokens := by
  induction tokens generalizing s with
  | nil =>
    simp only [read, stop]
    split <;> simp [Reading.rest]
  | cons t rest ih =>
    simp only [read]
    split
    · simp only [stop]
      split <;> simp [Reading.rest]
    · exact (ih _).trans (List.suffix_cons t rest)
    · exact List.suffix_cons t rest

theorem rest_isSuffix_readUnit (tokens : List Token) : (readUnit tokens).rest <:+ tokens := by
  have suffix := rest_isSuffix_read (.wanting []) tokens
  unfold readUnit readExpr
  split
  · next heq => rw [heq] at suffix; exact suffix
  · next t rest heq =>
    rw [heq] at suffix
    repeat' split
    · exact suffix
    · exact (List.suffix_cons t rest).trans suffix
    · exact suffix
  · exact suffix

/-- A successful reading takes at least one token. -/
theorem rest_length_lt_of_read_ok {frames : List Frame} {tokens rest : List Token} {e : Expr}
    (h : read (.wanting frames) tokens = .ok e rest) : rest.length < tokens.length := by
  cases tokens with
  | nil => simp [read, stop, finish] at h
  | cons t more =>
    simp only [read] at h
    split at h
    · simp [stop, finish] at h
    · next next _ =>
      have suffix := rest_isSuffix_read next more
      rw [h] at suffix
      exact Nat.lt_succ_of_le suffix.length_le
    · cases h

theorem rest_length_lt_of_readUnit_ok {tokens rest : List Token} {e : Expr}
    (h : readUnit tokens = .ok e rest) : rest.length < tokens.length := by
  unfold readUnit at h
  split at h
  · next heq => cases h; exact rest_length_lt_of_read_ok heq
  · next t more heq =>
    have shorter := rest_length_lt_of_read_ok heq
    repeat' split at h
    · cases h; exact shorter
    · cases h; exact Nat.lt_of_succ_lt shorter
    · cases h
  · next other => exact absurd h (by cases rest <;> simp_all)

theorem resume_length_le (tokens : List Token) : (resume tokens).length ≤ tokens.length := by
  fun_induction resume tokens with
  | case1 => exact Nat.le_refl _
  | case2 => exact Nat.le_refl _
  | case3 => exact Nat.le_succ _
  | case4 => exact Nat.zero_le _
  | case5 => exact Nat.le_succ _
  | case6 _ _ _ _ _ _ ih => exact Nat.le_succ_of_le ih

theorem resume_length_lt {tokens : List Token} (h : atEnd tokens = false) :
    (resume tokens).length < tokens.length := by
  cases tokens with
  | nil => cases h
  | cons t rest =>
    have notEnd : t.kind ≠ .eof := by simpa [atEnd] using h
    unfold resume
    rw [if_neg notEnd]
    split
    · exact Nat.lt_succ_self _
    · split
      · exact Nat.zero_lt_succ _
      · next u more =>
        split
        · exact Nat.lt_succ_self _
        · exact Nat.lt_succ_of_le (resume_length_le (u :: more))

/-- Resuming after an error leaves less than there was before the unit. -/
theorem resume_length_lt_of_wrong {tokens rest : List Token} {error : SyntaxError}
    (h : atEnd tokens = false) (wrong : readUnit tokens = .wrong error rest) :
    (resume rest).length < tokens.length := by
  have suffix : rest <:+ tokens := by
    have := rest_isSuffix_readUnit tokens
    rwa [wrong] at this
  by_cases ended : atEnd rest = true
  · have differs : rest.length ≠ tokens.length := by
      intro same
      rw [suffix.eq_of_length same, h] at ended
      cases ended
    have := resume_length_le rest
    have := suffix.length_le
    omega
  · have := resume_length_lt (Bool.eq_false_iff.mpr ended)
    have := suffix.length_le
    omega

/-- What a batch gives: its expressions, the errors met on the way, the tokens
that are left, and the fault that cut it short if one did. -/
structure Batch where
  exprs : List Expr
  errors : List SyntaxError
  rest : List Token
  fault? : Option Fault
  deriving DecidableEq, Repr

/-- Reads expressions up to the end of input. -/
def readAll (tokens : List Token) : Batch :=
  if _ : atEnd tokens = true then ⟨[], [], tokens, none⟩
  else
    match _ : readUnit tokens with
    | .ok e rest =>
      let later := readAll rest
      { later with exprs := e :: later.exprs }
    | .wrong error rest =>
      let later := readAll (resume rest)
      { later with errors := error :: later.errors }
    | .fault fault rest => ⟨[], [], rest, some fault⟩
termination_by tokens.length
decreasing_by
  · exact rest_length_lt_of_readUnit_ok ‹_›
  · exact resume_length_lt_of_wrong (Bool.eq_false_iff.mpr ‹_›) ‹_›

end Parser

end Reckon
