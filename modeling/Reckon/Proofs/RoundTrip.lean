import Reckon.Expr.Printer
import Reckon.Proofs.Recovery
import Reckon.Proofs.Scanning

/-!
# Infix text reads back

Infix text has parentheses only where the tree has a grouping, so it reads back
only because of the shape of the tree: operands bind at least as tightly as the
operator they belong to, right operands more tightly (`Canonical`).

* `Spells text ps level e` ties the four stages together: the text falls into
  the pieces `ps` wherever an expression can end behind it, nothing is wrong with
  them, and tokens that mean what they mean derive `e`. Each way to build a tree
  has its rule (`Spells.grouping`, `Spells.unary`, `Spells.binary`), and by
  induction every canonical tree is spelled by what it prints
  (`Canonical.spells`).
* In the other direction the grammar derives canonical trees only
  (`Derives.canonical`).

`infix_roundTrip` is both directions together.
-/

namespace Reckon.Grammar

open Reckon.Parser Source

/-! ## Canonical trees -/

/-- How tightly the outermost part of a tree binds. -/
def tightness : Expr → Nat
  | .binary _ op _ => op.level
  | .unary _ _ => Level.unary.rank
  | _ => Level.primary.rank

/-- A tree whose parts bind as tightly as their places ask without parentheses,
and whose leaves satisfy `leaf`. -/
def Canonical (leaf : Value → Prop) : Expr → Prop
  | .missing => False
  | .literal v => leaf v
  | .grouping e => Canonical leaf e
  | .unary op e => op ∈ UnaryOp.table ∧ Canonical leaf e ∧ Level.unary.rank ≤ tightness e
  | .binary l op r => op ∈ BinaryOp.table ∧ Canonical leaf l ∧ Canonical leaf r ∧
      op.level ≤ tightness l ∧ op.level < tightness r

/-- A leaf that can be written in a source: a constant, a finite double without a
sign, a text without a quote. -/
def Printable : Value → Prop
  | .nil | .bool _ | .double (.finite false _) => True
  | .text t => Ascii.quote ∉ t
  | .int _ | .double _ => False

instance : (v : Value) → Decidable (Printable v)
  | .nil | .bool _ | .double (.finite false _) => isTrue trivial
  | .text t => inferInstanceAs (Decidable (Ascii.quote ∉ t))
  | .int _ | .double .nan | .double (.infinite _) | .double (.finite true _) => isFalse nofun

instance Canonical.decidable (leaf : Value → Prop) [DecidablePred leaf] :
    (e : Expr) → Decidable (Canonical leaf e)
  | .missing => isFalse nofun
  | .literal v => inferInstanceAs (Decidable (leaf v))
  | .grouping e => Canonical.decidable leaf e
  | .unary op e =>
    have := Canonical.decidable leaf e
    inferInstanceAs (Decidable
      (op ∈ UnaryOp.table ∧ Canonical leaf e ∧ Level.unary.rank ≤ tightness e))
  | .binary l op r =>
    have := Canonical.decidable leaf l
    have := Canonical.decidable leaf r
    inferInstanceAs (Decidable (op ∈ BinaryOp.table ∧ Canonical leaf l ∧ Canonical leaf r ∧
      op.level ≤ tightness l ∧ op.level < tightness r))

/-- A leaf as it reads back: the words for constants are printed as texts. -/
def quoteWord : Value → Value
  | .nil => .text (Bytes.ofString "nil")
  | .bool b => .text (truthWord b)
  | v => v

/-- The tree with its constants turned into texts. -/
def quoteWords : Expr → Expr
  | .missing => .missing
  | .literal v => .literal (quoteWord v)
  | .grouping e => .grouping (quoteWords e)
  | .unary op e => .unary op (quoteWords e)
  | .binary l op r => .binary (quoteWords l) op (quoteWords r)

theorem unary_unknown_not_mem (code : Int) : UnaryOp.unknown code ∉ UnaryOp.table := by
  simp [UnaryOp.table]

theorem binary_unknown_not_mem (code : Int) : BinaryOp.unknown code ∉ BinaryOp.table := by
  simp [BinaryOp.table]

/-! ## Where a symbol ends -/

theorem mem_openers_of_isSymbol {kind : Kind} {lexeme : Bytes} (h : IsSymbol kind lexeme) :
    ∀ b ∈ lexeme, b ∈ openers := by
  have first : ∀ {b short long}, (b, short, long) ∈ extensible → b ∈ openers := fun member =>
    List.mem_append_left _ (List.mem_append_right _ (List.mem_map.mpr ⟨_, member, rfl⟩))
  intro b member
  cases h with
  | mark h =>
      rw [List.mem_singleton.mp member]
      exact List.mem_append_left _ (List.mem_append_left _ (List.mem_map.mpr ⟨_, h, rfl⟩))
  | short h =>
      rw [List.mem_singleton.mp member]
      exact first h
  | long h =>
      simp only [List.mem_cons, List.not_mem_nil, or_false] at member
      rcases member with rfl | rfl
      · exact first h
      · decide
  | slash =>
      rw [List.mem_singleton.mp member]
      decide

/-- A symbol ends before any byte that starts none. -/
theorem symbol_stopsAt {rest : Bytes} (ends : ∀ b ∈ rest.head?, b ∉ openers) (kind : Kind)
    (lexeme : Bytes) : (Piece.symbol kind lexeme).StopsAt rest := by
  intro b head
  refine ⟨fun other symbol => ?_, fun comment => ?_⟩
  · exact ends b head (mem_openers_of_isSymbol symbol b (by simp))
  · have last : b ∈ [Ascii.slash, Ascii.slash] := comment ▸ (by simp : b ∈ lexeme ++ [b])
    simp only [List.mem_cons, List.not_mem_nil, or_false, or_self] at last
    exact ends b head (last ▸ by decide)

/-- A symbol of one byte, other than a slash, ends before any byte that is no
equals sign. -/
theorem mark_stopsAt {b : UInt8} {rest : Bytes} (differs : b ≠ Ascii.slash)
    (ends : Ascii.equals ∉ rest.head?) (kind : Kind) : (Piece.symbol kind [b]).StopsAt rest := by
  intro c head
  refine ⟨fun other symbol => ?_, fun comment => ?_⟩
  · cases symbol
    exact ends head
  · cases comment
    exact differs rfl

/-! ## Spelled trees -/

/-- What can stand behind an expression in printed text: nothing, a space or a
closing parenthesis. -/
def Closing (rest : Bytes) : Prop := ∀ b ∈ rest.head?, b = Ascii.space ∨ b = Ascii.rightParen

theorem Closing.nil : Closing [] := fun _ member => by cases member

theorem Closing.space (rest : Bytes) : Closing (Ascii.space :: rest) :=
  fun _ member => .inl (Option.some.inj member).symm

theorem Closing.rightParen (rest : Bytes) : Closing (Ascii.rightParen :: rest) :=
  fun _ member => .inr (Option.some.inj member).symm

theorem Closing.ne_equals {rest : Bytes} (h : Closing rest) : Ascii.equals ∉ rest.head? := by
  intro member
  rcases h _ member with same | same <;> exact absurd same (by decide)

theorem Closing.ends_digits {rest : Bytes} (h : Closing rest) : Ends Bytes.isDigit rest := by
  intro b member
  rcases h b member with rfl | rfl <;> decide

/-- `Spells text ps level e`: the text is that of the pieces `ps`, and their
tokens derive `e` at a level. -/
structure Spells (text : Bytes) (ps : List Piece) (level : Level) (e : Expr) : Prop where
  /-- The text falls into the pieces. -/
  cut : ∀ rest, Closing rest → pieces (text ++ rest) = ps ++ pieces rest
  /-- Nothing is wrong with the pieces. -/
  clean : ∀ p ∈ ps, p.complaint? = none
  /-- Tokens that mean what the pieces mean derive the tree. -/
  derives : ∀ ts : List Token, ts.map Token.meaning = ps.filterMap Piece.meaning? →
    Derives level ts e
  /-- The text starts with a byte that extends no symbol before it. -/
  opens : ∃ b more, text = b :: more ∧ b ≠ Ascii.equals

theorem Spells.ne_equals {text : Bytes} {ps : List Piece} {level : Level} {e : Expr}
    (h : Spells text ps level e) (rest : Bytes) : Ascii.equals ∉ (text ++ rest).head? := by
  obtain ⟨b, more, rfl, differs⟩ := h.opens
  exact fun member => differs (Option.some.inj member)

theorem Spells.loosen {text : Bytes} {ps : List Piece} {level target : Level} {e : Expr}
    (h : Spells text ps level e) (le : target.rank ≤ level.rank) : Spells text ps target e :=
  { h with derives := fun ts means => (h.derives ts means).loosen le }

/-- A literal of one piece. -/
theorem Spells.literal {p : Piece} {kind : Kind} {payload : Payload} {v : Value}
    (proper : p.Proper) (stops : ∀ rest, Closing rest → p.StopsAt rest)
    (clean : p.complaint? = none) (meaning : p.meaning? = some (kind, payload))
    (isLiteral : kind = .number ∨ kind = .string) (denotes : Denotes payload v)
    (opens : ∃ b more, p.bytes = b :: more ∧ b ≠ Ascii.equals) :
    Spells p.bytes [p] .primary (.literal v) where
  cut rest closing := pieces_append proper (stops rest closing)
  clean q member := by
    rw [List.mem_singleton.mp member]
    exact clean
  derives ts means := by
    rw [List.filterMap_cons_some meaning, List.filterMap_nil] at means
    obtain ⟨t, rfl, told⟩ := List.map_eq_singleton_iff.mp means
    cases told
    exact .payload isLiteral denotes
  opens := opens

theorem Spells.grouping {text : Bytes} {ps : List Piece} {e : Expr} (h : Spells text ps .or e) :
    Spells (Ascii.leftParen :: text ++ [Ascii.rightParen])
      (.symbol .leftParen [Ascii.leftParen] :: ps ++ [.symbol .rightParen [Ascii.rightParen]])
      .primary (.grouping e) where
  cut rest closing := by
    have opening : pieces ([Ascii.leftParen] ++ (text ++ (Ascii.rightParen :: rest)))
        = .symbol .leftParen [Ascii.leftParen] :: pieces (text ++ (Ascii.rightParen :: rest)) :=
      pieces_symbol (.mark (by decide)) (mark_stopsAt (by decide) (h.ne_equals _) _)
    have closes : pieces ([Ascii.rightParen] ++ rest)
        = .symbol .rightParen [Ascii.rightParen] :: pieces rest :=
      pieces_symbol (.mark (by decide)) (mark_stopsAt (by decide) closing.ne_equals _)
    rw [List.singleton_append] at closes
    -- the inner text ends before the closing parenthesis, whatever follows that
    rw [h.cut _ (Closing.rightParen rest), closes] at opening
    simpa using opening
  clean p member := by
    simp only [List.mem_append, List.mem_cons, List.not_mem_nil, or_false] at member
    rcases member with (rfl | inside) | rfl
    · rfl
    · exact h.clean p inside
    · rfl
  derives ts means := by
    simp only [List.cons_append, List.filterMap_cons, List.filterMap_append, List.filterMap_nil,
      Piece.meaning?] at means
    obtain ⟨opening, more, rfl, opens, means⟩ := List.map_eq_cons_iff.mp means
    obtain ⟨inner, last, rfl, inside, closes⟩ := List.map_eq_append_iff.mp means
    obtain ⟨closing, rfl, closed⟩ := List.map_eq_singleton_iff.mp closes
    have left : opening.kind = .leftParen := congrArg Prod.fst opens
    have right : closing.kind = .rightParen := congrArg Prod.fst closed
    exact .grouping left right (h.derives inner inside)
  opens := ⟨_, _, rfl, by decide⟩

/-- A unary operator is a symbol of one byte, and no slash. -/
theorem unary_spelling {op : UnaryOp} (known : op ∈ UnaryOp.table) :
    ∃ kind b, op.spelling? = some (kind, [b]) ∧ (kind, op) ∈ unaryOperators ∧
      IsSymbol kind [b] ∧ b ≠ Ascii.slash ∧ b ≠ Ascii.equals := by
  cases op with
  | negative => exact ⟨.minus, Ascii.minus, rfl, by decide, .mark (by decide), by decide, by decide⟩
  | not =>
      have entry : (Ascii.bang, Kind.bang, Kind.bangEqual) ∈ extensible := by decide
      exact ⟨.bang, Ascii.bang, rfl, by decide, .short entry, by decide, by decide⟩
  | unknown code => exact absurd known (unary_unknown_not_mem code)

theorem Spells.unary {text : Bytes} {ps : List Piece} {e : Expr} {op : UnaryOp} {kind : Kind}
    {b : UInt8} (h : Spells text ps .unary e) (marks : (kind, op) ∈ unaryOperators)
    (symbol : IsSymbol kind [b]) (noSlash : b ≠ Ascii.slash) (noEquals : b ≠ Ascii.equals) :
    Spells (b :: text) (.symbol kind [b] :: ps) .unary (.unary op e) where
  cut rest closing := by
    have first := pieces_symbol symbol (mark_stopsAt noSlash (h.ne_equals rest) kind)
    rw [h.cut rest closing] at first
    exact first
  clean p member := by
    rcases List.mem_cons.mp member with rfl | inside
    · rfl
    · exact h.clean p inside
  derives ts means := by
    simp only [List.filterMap_cons, Piece.meaning?] at means
    obtain ⟨t, more, rfl, told, means⟩ := List.map_eq_cons_iff.mp means
    have spelled : t.kind = kind := congrArg Prod.fst told
    exact .unary (spelled ▸ marks) (h.derives more means)
  opens := ⟨b, text, rfl, noEquals⟩

/-- `Joint op p`: the piece `p` spells a binary operator between two spaces. -/
structure Joint (op : BinaryOp) (kind : Kind) (p : Piece) : Prop where
  spelling : op.spelling? = some (kind, p.bytes)
  proper : p.Proper
  stops : ∀ rest, p.StopsAt (Ascii.space :: rest)
  clean : p.complaint? = none
  meaning : p.meaning? = some (kind, .absent)

theorem joint_symbol {op : BinaryOp} {kind : Kind} {lexeme : Bytes}
    (spelling : op.spelling? = some (kind, lexeme)) (symbol : IsSymbol kind lexeme) :
    Joint op kind (.symbol kind lexeme) := by
  refine ⟨spelling, symbol, fun rest => ?_, rfl, rfl⟩
  refine symbol_stopsAt (fun b member => ?_) kind lexeme
  rw [← Option.some.inj member]
  decide

theorem joint_word {op : BinaryOp} {kind : Kind} {b : UInt8} {word : Bytes}
    (spelling : op.spelling? = some (kind, b :: word)) (letter : isLetter b = true)
    (all : word.all isWordByte = true) (keyword : Kind.ofWord (b :: word) = kind) :
    Joint op kind (.word (b :: word)) := by
  refine ⟨spelling, ⟨b, word, rfl, letter, List.all_eq_true.mp all⟩, fun rest c member => ?_, rfl,
    ?_⟩
  · rw [← Option.some.inj member]
    decide
  · rw [Piece.meaning?, keyword]

theorem exists_joint {op : BinaryOp} (known : op ∈ BinaryOp.table) :
    ∃ kind p, Joint op kind p := by
  have bang : (Ascii.bang, Kind.bang, Kind.bangEqual) ∈ extensible := by decide
  have equals : (Ascii.equals, Kind.equal, Kind.equalEqual) ∈ extensible := by decide
  have less : (Ascii.less, Kind.less, Kind.lessEqual) ∈ extensible := by decide
  have greater : (Ascii.greater, Kind.greater, Kind.greaterEqual) ∈ extensible := by decide
  cases op with
  | eq => exact ⟨_, _, joint_symbol rfl (.long equals)⟩
  | notEq => exact ⟨_, _, joint_symbol rfl (.long bang)⟩
  | less => exact ⟨_, _, joint_symbol rfl (.short less)⟩
  | greater => exact ⟨_, _, joint_symbol rfl (.short greater)⟩
  | lessEq => exact ⟨_, _, joint_symbol rfl (.long less)⟩
  | greaterEq => exact ⟨_, _, joint_symbol rfl (.long greater)⟩
  | add | subtract | multiply => exact ⟨_, _, joint_symbol rfl (.mark (by decide))⟩
  | divide => exact ⟨_, _, joint_symbol rfl .slash⟩
  | or | and => exact ⟨_, _, joint_word rfl (by decide) (by decide) (by decide)⟩
  | unknown code => exact absurd known (binary_unknown_not_mem code)

theorem Spells.binary {left right : Bytes} {ps qs : List Piece} {level next : Level} {l r : Expr}
    {op : BinaryOp} {kind : Kind} {p : Piece} (hl : Spells left ps level l)
    (hr : Spells right qs next r) (step : level.next? = some next)
    (joins : (kind, op) ∈ level.operators) (joint : Joint op kind p) :
    Spells (left ++ Ascii.space :: p.bytes ++ Ascii.space :: right)
      (ps ++ .blank Ascii.space :: p :: .blank Ascii.space :: qs) level (.binary l op r) where
  cut rest closing := by
    -- both spaces are blanks of their own, so no mark meets another one
    have space : ∀ more, pieces (Ascii.space :: more) = .blank Ascii.space :: pieces more :=
      fun more => pieces_of_leading (leading_blank (by decide) more)
    have operator := pieces_append joint.proper (joint.stops (right ++ rest))
    have first := hl.cut (Ascii.space :: (p.bytes ++ Ascii.space :: (right ++ rest)))
      (Closing.space _)
    rw [space, operator, space, hr.cut rest closing] at first
    simpa using first
  clean q member := by
    simp only [List.mem_append, List.mem_cons] at member
    rcases member with inside | rfl | rfl | rfl | inside
    · exact hl.clean q inside
    · rfl
    · exact joint.clean
    · rfl
    · exact hr.clean q inside
  derives ts means := by
    have blank : (Piece.blank Ascii.space).meaning? = none := rfl
    rw [List.filterMap_append, List.filterMap_cons_none blank,
      List.filterMap_cons_some joint.meaning, List.filterMap_cons_none blank] at means
    obtain ⟨before, behind, rfl, meansLeft, meansBehind⟩ := List.map_eq_append_iff.mp means
    obtain ⟨t, after, rfl, told, meansRight⟩ := List.map_eq_cons_iff.mp meansBehind
    have spelled : t.kind = kind := congrArg Prod.fst told
    exact .binary step (spelled ▸ joins) (hl.derives before meansLeft)
      (hr.derives after meansRight)
  opens := by
    obtain ⟨b, more, rfl, differs⟩ := hl.opens
    exact ⟨b, _, rfl, differs⟩

/-! ## What canonical trees print -/

/-- Texts are printed between quotes. -/
theorem spells_text {t : Bytes} (unquoted : Ascii.quote ∉ t) :
    Spells (Bytes.inQuotes t) [.text t] .primary (.literal (.text t)) :=
  Spells.literal (p := .text t) unquoted (fun _ _ => trivial) rfl rfl (.inr rfl) (.text t)
    ⟨_, _, rfl, by decide⟩

theorem spells_numeral (rank : Fin rankBound) :
    ∃ p, Spells ((Double.finite false rank).text .value) [p] .primary
      (.literal (.double (.finite false rank))) := by
  obtain ⟨whole, fraction, run, run', reads, written⟩ := Double.exists_numeral rank
  refine ⟨.numeral whole (some fraction), ?_⟩
  rw [written false]
  refine Spells.literal (p := .numeral whole (some fraction)) ⟨run, fun digits member => ?_⟩
    (fun rest closing => closing.ends_digits) rfl rfl (.inl rfl) ?_ ?_
  · cases member
    exact run'
  · rw [Option.getD_some, reads]
    exact .double _
  · obtain ⟨nonempty, all⟩ := run
    cases whole with
    | nil => exact absurd rfl nonempty
    | cons b whole =>
        refine ⟨b, _, rfl, ?_⟩
        rintro rfl
        exact absurd (all _ List.mem_cons_self) (by decide)

theorem Printable.spells {v : Value} (h : Printable v) :
    ∃ ps, Spells v.leafText ps .primary (.literal (quoteWord v)) := by
  cases v with
  | nil => exact ⟨_, spells_text (by decide)⟩
  | bool b => exact ⟨_, spells_text (by cases b <;> decide)⟩
  | text t => exact ⟨_, spells_text h⟩
  | int n => cases h
  | double d =>
      cases d with
      | nan => cases h
      | infinite negative => cases h
      | finite negative rank =>
          cases negative with
          | true => cases h
          | false =>
              obtain ⟨p, spells⟩ := spells_numeral rank
              exact ⟨[p], spells⟩

theorem print_grouping {e : Expr} {text : Bytes} (h : Form.infixForm.print e = .ok text) :
    Form.infixForm.print (.grouping e)
      = .ok (Ascii.leftParen :: text ++ [Ascii.rightParen]) := by
  simp only [Form.print, Form.algebra] at h ⊢
  rw [Expr.fold, h]
  rfl

theorem print_unary {e : Expr} {op : UnaryOp} {kind : Kind} {text symbol : Bytes}
    (h : Form.infixForm.print e = .ok text) (spelling : op.spelling? = some (kind, symbol)) :
    Form.infixForm.print (.unary op e) = .ok (symbol ++ text) := by
  have named : op.symbol = .ok symbol := by rw [UnaryOp.symbol, spelling]
  simp only [Form.print, Form.algebra] at h ⊢
  rw [Expr.fold, h]
  show (Expr.infixed.unary op text) = _
  simp only [Expr.infixed, named]
  rfl

theorem print_binary {l r : Expr} {op : BinaryOp} {kind : Kind} {left right symbol : Bytes}
    (hl : Form.infixForm.print l = .ok left) (hr : Form.infixForm.print r = .ok right)
    (spelling : op.spelling? = some (kind, symbol)) :
    Form.infixForm.print (.binary l op r)
      = .ok (left ++ Ascii.space :: symbol ++ Ascii.space :: right) := by
  have named : op.symbol = .ok symbol := by rw [BinaryOp.symbol, spelling]
  simp only [Form.print, Form.algebra] at hl hr ⊢
  rw [Expr.fold, hl, hr]
  show (Expr.infixed.binary left op right) = _
  simp only [Expr.infixed, named]
  rfl

/-- Every canonical tree prints a text that spells it. -/
theorem Canonical.spells {e : Expr} (h : Canonical Printable e) :
    ∃ text ps level, Form.infixForm.print e = .ok text ∧
      Spells text ps level (quoteWords e) ∧ level.rank = tightness e := by
  induction e with
  | missing => cases h
  | literal v =>
      obtain ⟨ps, spells⟩ := Printable.spells h
      exact ⟨v.leafText, ps, .primary, rfl, spells, rfl⟩
  | grouping e ih =>
      obtain ⟨text, ps, level, printed, spells, _⟩ := ih h
      have loose : Level.or.rank ≤ level.rank := by cases level <;> decide
      exact ⟨_, _, .primary, print_grouping printed, (spells.loosen loose).grouping, rfl⟩
  | unary op e ih =>
      obtain ⟨known, canonical, tight⟩ := h
      obtain ⟨text, ps, level, printed, spells, rank⟩ := ih canonical
      obtain ⟨kind, b, spelling, marks, symbol, noSlash, noEquals⟩ := unary_spelling known
      have operand : Spells text ps .unary (quoteWords e) := spells.loosen (by omega)
      exact ⟨_, _, .unary, print_unary printed spelling,
        operand.unary marks symbol noSlash noEquals, rfl⟩
  | binary l op r ihl ihr =>
      obtain ⟨known, canonical, canonical', tight, tight'⟩ := h
      obtain ⟨left, ps, level, printed, spells, rank⟩ := ihl canonical
      obtain ⟨right, qs, level', printed', spells', rank'⟩ := ihr canonical'
      obtain ⟨kind, p, joint⟩ := exists_joint known
      have spelled : BinaryOp.ofKind? kind = some op :=
        (BinaryOp.ofKind?_eq_some_iff kind op).mpr ⟨_, joint.spelling⟩
      obtain ⟨target, joins, below⟩ := exists_level spelled
      have place : op.level = target.rank := (mem_operators_iff.mp joins).2
      obtain ⟨next, step⟩ := Level.exists_next (by omega : target.rank < 8)
      have higher := Level.rank_next step
      -- the shape of the tree lets both operands stand where the operator puts them
      have operand : Spells left ps target (quoteWords l) := spells.loosen (by omega)
      have operand' : Spells right qs next (quoteWords r) := spells'.loosen (by omega)
      exact ⟨_, _, target, print_binary printed printed' joint.spelling,
        operand.binary operand' step joins joint, place.symm⟩

/-! ## Reading what is spelled -/

theorem Spells.pieces_eq {text : Bytes} {ps : List Piece} {level : Level} {e : Expr}
    (h : Spells text ps level e) : pieces text = ps := by
  have whole := h.cut [] Closing.nil
  rwa [List.append_nil, pieces, List.append_nil] at whole

theorem Spells.tokens_eq {text : Bytes} {ps : List Piece} {level : Level} {e : Expr}
    (h : Spells text ps level e) :
    ∃ ts, tokens text = ts ++ [endToken text] ∧ Sentence ts e := by
  refine ⟨_, rfl, (h.derives _ ?_).loosen (by cases level <;> decide)⟩
  rw [map_meaning_place, h.pieces_eq]

/-- A batch of one sentence. -/
theorem readAll_of_readExpr {tokens : List Token} {t : Token} {e : Expr} (kind : t.kind = .eof)
    (read : readExpr tokens = .ok e [t]) : readAll tokens = ⟨[e], [], [t], none⟩ := by
  have unit : readUnit tokens = .ok e [t] := by
    rw [readUnit, read]
    exact if_pos kind
  have more : atEnd tokens = false := by
    obtain ⟨ts, rfl, sentence, _⟩ := sentence_of_readExpr read
    cases ts with
    | nil => exact absurd rfl sentence.ne_nil
    | cons first ts =>
        -- at the end of input no expression starts
        refine Bool.eq_false_iff.mpr fun ended => ?_
        have first_kind : first.kind = .eof := atEnd_iff.mp ended
        have refused := take_eq_none_of_endsSegment
          (endsSegment_iff.mpr (.inr first_kind)) (.wanting [])
        rw [List.cons_append, readExpr, Parser.read, refused] at read
        cases read
  have ended : atEnd [t] = true := beq_iff_eq.mpr kind
  rw [readAll_of_ok more unit, readAll_of_atEnd ended]
  rfl

/-! ## What is read is canonical -/

/-- Derived trees are canonical, with the leaves that their tokens carry. -/
theorem Derives.canonical {leaf : Value → Prop} {level : Level} {ts : List Token} {e : Expr}
    (h : Derives level ts e) (names : ∀ entry ∈ constants, leaf entry.2)
    (carries : ∀ t ∈ ts, t.kind = .number ∨ t.kind = .string →
      ∀ v, Denotes t.payload v → leaf v) :
    Canonical leaf e ∧ level.rank ≤ tightness e := by
  induction h with
  | tighter step _ ih =>
      obtain ⟨canonical, tight⟩ := ih carries
      have higher := Level.rank_next step
      exact ⟨canonical, by omega⟩
  | @binary level next left right l r t op step joins _ _ ihl ihr =>
      obtain ⟨canonical, tight⟩ := ihl fun u member =>
        carries u (List.mem_append_left _ member)
      obtain ⟨canonical', tight'⟩ := ihr fun u member =>
        carries u (List.mem_append_right _ (List.mem_cons_of_mem _ member))
      have higher := Level.rank_next step
      obtain ⟨spelled, place⟩ := mem_operators_iff.mp joins
      have known : op ∈ BinaryOp.table := by
        cases op with
        | unknown code =>
            obtain ⟨symbol, spelling⟩ := (BinaryOp.ofKind?_eq_some_iff _ _).mp spelled
            cases spelling
        | _ => decide
      refine ⟨⟨known, canonical, canonical', by omega, by omega⟩, ?_⟩
      show level.rank ≤ op.level
      omega
  | @unary ts e t op marks _ ih =>
      obtain ⟨canonical, tight⟩ := ih fun u member => carries u (List.mem_cons_of_mem _ member)
      have table : ∀ entry ∈ unaryOperators, entry.2 ∈ UnaryOp.table := by decide
      exact ⟨⟨table _ marks, canonical, tight⟩, Nat.le_refl _⟩
  | @constant t v member => exact ⟨names _ member, Nat.le_refl _⟩
  | @payload t v kind denotes =>
      exact ⟨carries t List.mem_cons_self kind v denotes, Nat.le_refl _⟩
  | @grouping ts e opening closing _ _ _ ih =>
      obtain ⟨canonical, _⟩ := ih fun u member =>
        carries u (List.mem_append_left _ (List.mem_cons_of_mem _ member))
      exact ⟨canonical, Nat.le_refl _⟩

theorem resume_isSuffix (tokens : List Token) : resume tokens <:+ tokens := by
  fun_induction resume tokens with
  | case1 => exact List.suffix_refl _
  | case2 => exact List.suffix_refl _
  | case3 t rest => exact List.suffix_cons t rest
  | case4 t => exact List.nil_suffix
  | case5 t _ _ u more => exact List.suffix_cons t _
  | case6 t _ _ u more _ ih => exact ih.trans (List.suffix_cons t _)

theorem exists_readExpr_of_readUnit {tokens rest : List Token} {e : Expr}
    (h : readUnit tokens = .ok e rest) : ∃ rest', readExpr tokens = .ok e rest' := by
  unfold readUnit at h
  cases read : readExpr tokens with
  | ok e' rest' =>
      rw [read] at h
      cases rest' with
      | nil =>
          cases h
          exact ⟨[], rfl⟩
      | cons t rest' =>
          -- both ways to end a unit keep the tree
          dsimp only at h
          split at h
          · cases h
            exact ⟨_, rfl⟩
          · split at h
            · cases h
              exact ⟨_, rfl⟩
            · cases h
  | wrong error rest' =>
      rw [read] at h
      cases h
  | fault fault rest' =>
      rw [read] at h
      cases h

/-- The trees of a batch are derived from tokens of it. -/
theorem exists_sentence_of_mem_readAll {tokens : List Token} {e : Expr}
    (member : e ∈ (readAll tokens).exprs) : ∃ ts, (∀ t ∈ ts, t ∈ tokens) ∧ Sentence ts e := by
  fun_induction readAll tokens with
  | case1 tokens ended => cases member
  | case2 tokens more first rest unit later ih =>
      rcases List.mem_cons.mp member with rfl | member
      · obtain ⟨rest', read⟩ := exists_readExpr_of_readUnit unit
        obtain ⟨ts, split, sentence, _⟩ := sentence_of_readExpr read
        exact ⟨ts, fun t inside => split ▸ List.mem_append_left _ inside, sentence⟩
      · obtain ⟨ts, inside, sentence⟩ := ih member
        have suffix := rest_isSuffix_readUnit tokens
        rw [unit] at suffix
        exact ⟨ts, fun t here => suffix.subset (inside t here), sentence⟩
  | case3 tokens more error rest unit later ih =>
      obtain ⟨ts, inside, sentence⟩ := ih member
      have suffix := rest_isSuffix_readUnit tokens
      rw [unit] at suffix
      exact ⟨ts, fun t here => suffix.subset ((resume_isSuffix rest).subset (inside t here)),
        sentence⟩
  | case4 tokens more fault rest unit => cases member

/-- A leaf that reading a source can give: a printable one, or infinity for a
numeral of the source that is too large for a double. -/
def Scanned (source : Bytes) (v : Value) : Prop :=
  Printable v ∨ v = .double (.infinite false) ∧
    ∃ whole fraction, .numeral whole fraction ∈ pieces source ∧
      rankBound ≤ (Decimal.ofNumeral whole (fraction.getD [])).rank

theorem scanned_of_denotes {source : Bytes} {t : Token} (member : t ∈ tokens source)
    (kind : t.kind = .number ∨ t.kind = .string) {v : Value} (denotes : Denotes t.payload v) :
    Scanned source v := by
  obtain ⟨p, here, proper, _, literal⟩ := literal_of_mem_tokens member kind
  generalize t.kind = k, t.payload = payload at literal denotes
  cases literal with
  | text body =>
      cases denotes
      exact .inl proper
  | number whole fraction =>
      cases denotes
      -- beyond the ranks of finite doubles a numeral reads as infinity
      by_cases small : (Decimal.ofNumeral whole (fraction.getD [])).rank < rankBound
      · left
        rw [Decimal.toDouble, Double.ofRank, dif_pos small]
        trivial
      · right
        rw [Decimal.toDouble, Double.ofRank, dif_neg small]
        exact ⟨rfl, whole, fraction, here, Nat.le_of_not_lt small⟩

/-- A tree that reading a source gives, alone or in a batch. -/
def ReadFrom (source : Bytes) (e : Expr) : Prop :=
  (∃ rest, readExpr (tokens source) = .ok e rest) ∨ e ∈ (readAll (tokens source)).exprs

theorem ReadFrom.canonical {source : Bytes} {e : Expr} (h : ReadFrom source e) :
    Canonical (Scanned source) e := by
  obtain ⟨ts, inside, sentence⟩ : ∃ ts, (∀ t ∈ ts, t ∈ tokens source) ∧ Sentence ts e := by
    rcases h with ⟨rest, read⟩ | member
    · obtain ⟨ts, split, sentence, _⟩ := sentence_of_readExpr read
      exact ⟨ts, fun t here => split ▸ List.mem_append_left _ here, sentence⟩
    · exact exists_sentence_of_mem_readAll member
  have names : ∀ entry ∈ constants, Printable entry.2 := by decide
  refine (sentence.canonical (fun entry member => .inl (names entry member)) ?_).1
  intro t here kind v denotes
  exact scanned_of_denotes (inside t here) kind denotes

/-- **Infix text reads back.** A canonical tree with printable leaves prints a text
without scan errors, and both ways to read its tokens give the tree, its constants
turned into texts, and no error. In return every tree that is read from a source is
canonical; its leaves are printable, or infinite where a numeral is too large. -/
theorem infix_roundTrip :
    (∀ e, Canonical Printable e → ∃ text, Form.infixForm.print e = .ok text ∧
      Source.errors text = [] ∧
      readExpr (tokens text) = .ok (quoteWords e) [endToken text] ∧
      readAll (tokens text) = ⟨[quoteWords e], [], [endToken text], none⟩) ∧
    (∀ source e, ReadFrom source e → Canonical (Scanned source) e) := by
  refine ⟨fun e canonical => ?_, fun source e read => read.canonical⟩
  -- the text spells the tree, so its tokens are a sentence that the end token stops
  obtain ⟨text, ps, level, printed, spells, _⟩ := canonical.spells
  obtain ⟨ts, split, sentence⟩ := spells.tokens_eq
  have read : readExpr (tokens text) = .ok (quoteWords e) [endToken text] := by
    rw [split]
    exact readExpr_of_sentence sentence (show Kind.eof ∉ joints by decide)
  refine ⟨text, printed, errors_eq_nil ?_, read, readAll_of_readExpr rfl read⟩
  rw [spells.pieces_eq]
  exact spells.clean

/-- The printed text has a `!` and a `-` before other marks, a comment inside a
string and chains of different levels; what is read from it is canonical again. -/
theorem infix_roundTrip_sample :
    let half : Expr := .literal (.double (.finite false ⟨0x3FE0000000000000, by decide⟩))
    let remark : Expr := .literal (.text (Bytes.ofString "// = \n"))
    let negated : Expr := .unary .negative (.grouping (.binary half .subtract remark))
    let e : Expr := .binary (.unary .not (.unary .not (.literal (.bool true)))) .eq
      (.binary (.binary negated .divide half) .multiply (.literal .nil))
    Canonical Printable e ∧ ∃ text, Form.infixForm.print e = .ok text ∧
      Source.errors text = [] ∧
      readExpr (tokens text) = .ok (quoteWords e) [endToken text] ∧
      readAll (tokens text) = ⟨[quoteWords e], [], [endToken text], none⟩ ∧
      Canonical (Scanned text) (quoteWords e) := by
  intro half remark negated e
  have canonical : Canonical Printable e := by decide
  obtain ⟨text, printed, clean, read, batch⟩ := infix_roundTrip.1 e canonical
  exact ⟨canonical, text, printed, clean, read, batch,
    infix_roundTrip.2 text (quoteWords e) (.inl ⟨_, read⟩)⟩

end Reckon.Grammar
