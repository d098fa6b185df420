import Reckon.Token.Basic

/-!
# Pieces of source text

Source text falls into consecutive pieces: blanks, comments, the texts of
tokens, bytes that start nothing, and at most one string left open at the end.
`leading` takes the longest piece off the front, and the pieces concatenate to
the source (`flatMap_bytes_pieces`).
-/

namespace Reckon

/-- A piece of source text. -/
inductive Piece
  /-- A space, tab, carriage return or line end. -/
  | blank (byte : UInt8)
  /-- A comment, without its two slashes. -/
  | comment (body : Bytes)
  /-- An operator or a mark of punctuation. -/
  | symbol (kind : Kind) (lexeme : Bytes)
  /-- A keyword or an identifier. -/
  | word (spelling : Bytes)
  /-- A number: the digits before the point, and those after it if it has one. -/
  | numeral (whole : Bytes) (fraction : Option Bytes)
  /-- A string, without its quotes. -/
  | text (body : Bytes)
  /-- A byte that starts no other piece. -/
  | stray (byte : UInt8)
  /-- A string that the end of the source leaves open, without its quote. -/
  | unclosed (body : Bytes)
  deriving DecidableEq, Repr

namespace Piece

/-- The source bytes of a piece. -/
def bytes : Piece → Bytes
  | blank b => [b]
  | comment body => Ascii.slash :: Ascii.slash :: body
  | symbol _ lexeme => lexeme
  | word spelling => spelling
  | numeral whole none => whole
  | numeral whole (some fraction) => whole ++ Ascii.point :: fraction
  | text body => Ascii.quote :: body ++ [Ascii.quote]
  | stray b => [b]
  | unclosed body => Ascii.quote :: body

/-- The kind and payload of the token that a piece spells, if it spells one. -/
def meaning? : Piece → Option (Kind × Payload)
  | symbol kind _ => some (kind, .absent)
  | word spelling => some (Kind.ofWord spelling, .absent)
  | numeral whole fraction =>
    some (.number, .double ((Decimal.ofNumeral whole (fraction.getD [])).toDouble false))
  | text body => some (.string, .text body)
  | blank _ | comment _ | stray _ | unclosed _ => none

/-- What is wrong with a piece, if something is. -/
def complaint? : Piece → Option Bytes
  | stray _ => some (Bytes.ofString "Unexpected character.")
  | unclosed _ => some (Bytes.ofString "Unterminated string.")
  | _ => none

end Piece

namespace Source

/-! ## Classes of bytes -/

/-- Whether a byte separates pieces without meaning anything. -/
def isBlank (b : UInt8) : Bool :=
  b == Ascii.space || b == Ascii.carriageReturn || b == Ascii.tab || b == Ascii.newline

/-- Whether a byte can start a word. -/
def isLetter (b : UInt8) : Bool :=
  (Ascii.smallA ≤ b && b ≤ Ascii.smallZ) || (Ascii.capitalA ≤ b && b ≤ Ascii.capitalZ)
    || b == Ascii.underscore

/-- Whether a byte can continue a word. -/
def isWordByte (b : UInt8) : Bool := isLetter b || Bytes.isDigit b

/-- The marks that are tokens by themselves. -/
def marks : List (UInt8 × Kind) :=
  [(Ascii.leftParen, .leftParen), (Ascii.rightParen, .rightParen), (Ascii.leftBrace, .leftBrace),
    (Ascii.rightBrace, .rightBrace), (Ascii.comma, .comma), (Ascii.point, .dot),
    (Ascii.minus, .minus), (Ascii.plus, .plus), (Ascii.semicolon, .semicolon), (Ascii.star, .star)]

/-- The marks that an equals sign may extend, with both kinds. -/
def extensible : List (UInt8 × Kind × Kind) :=
  [(Ascii.bang, .bang, .bangEqual), (Ascii.equals, .equal, .equalEqual),
    (Ascii.less, .less, .lessEqual), (Ascii.greater, .greater, .greaterEqual)]

/-! ## The first piece -/

/-- A number that starts with the digit `b`. -/
def numeral (b : UInt8) (rest : Bytes) : Piece × Bytes :=
  let whole := b :: rest.takeWhile Bytes.isDigit
  match rest.dropWhile Bytes.isDigit with
  | p :: d :: more =>
    if p = Ascii.point ∧ Bytes.isDigit d = true then
      (.numeral whole (some (d :: more.takeWhile Bytes.isDigit)), more.dropWhile Bytes.isDigit)
    else (.numeral whole none, p :: d :: more)
  | after => (.numeral whole none, after)

/-- What follows an opening quote: a string, or one that is left open. -/
def quotation (rest : Bytes) : Piece × Bytes :=
  match rest.dropWhile (· != Ascii.quote) with
  | [] => (.unclosed rest, [])
  | _ :: after => (.text (rest.takeWhile (· != Ascii.quote)), after)

/-- What follows a slash: a comment up to the end of its line, or nothing. -/
def slashed (rest : Bytes) : Piece × Bytes :=
  match rest with
  | [] => (.symbol .slash [Ascii.slash], [])
  | c :: after =>
    if c = Ascii.slash then
      (.comment (after.takeWhile (· != Ascii.newline)), after.dropWhile (· != Ascii.newline))
    else (.symbol .slash [Ascii.slash], c :: after)

/-- A mark that an equals sign extends if it follows. -/
def extended (b : UInt8) (short long : Kind) (rest : Bytes) : Piece × Bytes :=
  match rest with
  | [] => (.symbol short [b], [])
  | c :: after =>
    if c = Ascii.equals then (.symbol long [b, c], after) else (.symbol short [b], c :: after)

/-- The longest piece at the front of a text that starts with `b`, and the text
after it. -/
def leading (b : UInt8) (rest : Bytes) : Piece × Bytes :=
  match marks.lookup b with
  | some kind => (.symbol kind [b], rest)
  | none =>
    match extensible.lookup b with
    | some (short, long) => extended b short long rest
    | none =>
      if b = Ascii.slash then slashed rest
      else if isBlank b then (.blank b, rest)
      else if b = Ascii.quote then quotation rest
      else if Bytes.isDigit b then numeral b rest
      else if isLetter b then
        (.word (b :: rest.takeWhile isWordByte), rest.dropWhile isWordByte)
      else (.stray b, rest)

/-! ## Nothing is lost -/

theorem bytes_numeral (b : UInt8) (rest : Bytes) :
    (numeral b rest).1.bytes ++ (numeral b rest).2 = b :: rest := by
  unfold numeral
  split
  · next p d more heq =>
    split
    · next isFraction =>
      have whole : rest = rest.takeWhile Bytes.isDigit ++ Ascii.point :: d :: more := by
        rw [← isFraction.1, ← heq, List.takeWhile_append_dropWhile]
      simp only [Piece.bytes, List.cons_append, List.append_assoc, List.takeWhile_append_dropWhile]
      rw [← whole]
    · simp only [Piece.bytes, List.cons_append, ← heq, List.takeWhile_append_dropWhile]
  · simp only [Piece.bytes, List.cons_append, List.takeWhile_append_dropWhile]

theorem bytes_quotation (rest : Bytes) :
    (quotation rest).1.bytes ++ (quotation rest).2 = Ascii.quote :: rest := by
  unfold quotation
  split
  · simp [Piece.bytes]
  · next q after heq =>
    have closes : q = Ascii.quote := by
      have notQuote := List.head?_dropWhile_not (fun x : UInt8 => x != Ascii.quote) rest
      rw [heq] at notQuote
      simpa using notQuote
    have whole : rest = rest.takeWhile (· != Ascii.quote) ++ q :: after := by
      rw [← heq, List.takeWhile_append_dropWhile]
    subst closes
    simp only [Piece.bytes, List.cons_append, List.append_assoc, List.nil_append]
    rw [← whole]

theorem bytes_slashed (rest : Bytes) :
    (slashed rest).1.bytes ++ (slashed rest).2 = Ascii.slash :: rest := by
  unfold slashed
  split
  · rfl
  · split
    · next isComment =>
      rw [isComment]
      simp only [Piece.bytes, List.cons_append, List.takeWhile_append_dropWhile]
    · rfl

theorem bytes_extended (b : UInt8) (short long : Kind) (rest : Bytes) :
    (extended b short long rest).1.bytes ++ (extended b short long rest).2 = b :: rest := by
  unfold extended
  split
  · rfl
  · split <;> rfl

/-- The first piece and the text after it make up the text. -/
theorem bytes_leading (b : UInt8) (rest : Bytes) :
    (leading b rest).1.bytes ++ (leading b rest).2 = b :: rest := by
  unfold leading
  split
  · simp [Piece.bytes]
  split
  · exact bytes_extended ..
  split
  · next slash => rw [bytes_slashed, slash]
  split
  · simp [Piece.bytes]
  split
  · next quote => rw [bytes_quotation, quote]
  split
  · exact bytes_numeral ..
  split
  · simp only [Piece.bytes, List.cons_append, List.takeWhile_append_dropWhile]
  · simp [Piece.bytes]

/-- The first piece takes at least one byte. -/
theorem length_leading_lt (b : UInt8) (rest : Bytes) :
    (leading b rest).2.length < (b :: rest).length := by
  have nonempty : (leading b rest).1.bytes ≠ [] := by
    unfold leading numeral quotation slashed extended
    repeat' split
    all_goals simp [Piece.bytes]
  have parts := congrArg List.length (bytes_leading b rest)
  have positive := List.length_pos_iff.mpr nonempty
  rw [List.length_append] at parts
  omega

/-! ## All pieces -/

/-- The pieces of a source, in order. -/
def pieces : Bytes → List Piece
  | [] => []
  | b :: rest => (leading b rest).1 :: pieces (leading b rest).2
termination_by source => source.length
decreasing_by exact length_leading_lt b rest

/-- Cutting a source into pieces loses, repeats and moves nothing. -/
theorem flatMap_bytes_pieces (source : Bytes) : (pieces source).flatMap Piece.bytes = source := by
  fun_induction pieces source with
  | case1 => rfl
  | case2 b rest ih => rw [List.flatMap_cons, ih, bytes_leading]

end Source

end Reckon
