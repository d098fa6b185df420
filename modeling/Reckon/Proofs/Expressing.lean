import Reckon.Proofs.Safety

/-!
# Every tree can be written down

Infix text has no parentheses of its own, so a tree in which a loose operator stands
under a tight one does not read back. With its binary operands put in parentheses
(`parenthesize`) every tree does:

* the parenthesized tree is canonical whatever the shape of the tree was
  (`Sound.canonical_parenthesize`), so what it prints reads back to it;
* evaluation does not see parentheses (`eval_parenthesize`).

So each tree of writable leaves has a source text with its meaning (`expressible`).
-/

namespace Reckon

open Grammar Reckon.Parser Source

/-! ## Parentheses around operands -/

/-- A tree in the place of an operand: a binary one stands in parentheses. -/
def asOperand : Expr → Expr
  | .binary l op r => .grouping (.binary l op r)
  | e => e

/-- The tree with parentheses around every binary operand of an operator. -/
def parenthesize : Expr → Expr
  | .missing => .missing
  | .literal v => .literal v
  | .grouping e => .grouping (parenthesize e)
  | .unary op e => .unary op (asOperand (parenthesize e))
  | .binary l op r => .binary (asOperand (parenthesize l)) op (asOperand (parenthesize r))

/-- A leaf with a source text of its own: a finite double without a sign, or a text
without a quote. -/
def Writable : Value → Prop
  | .double (.finite false _) => True
  | .text t => Ascii.quote ∉ t
  | .nil | .bool _ | .int _ | .double _ => False

theorem Writable.printable {v : Value} (h : Writable v) : Printable v := by
  cases v with
  | nil | bool | int => cases h
  | text t => exact h
  | double d =>
      cases d with
      | nan | infinite => cases h
      | finite negative rank =>
          cases negative with
          | true => cases h
          | false => trivial

theorem Writable.quoteWord_eq {v : Value} (h : Writable v) : quoteWord v = v := by
  cases v with
  | nil | bool => cases h
  | int | double | text => rfl

/-! ## Meaning -/

theorem eval_asOperand (e : Expr) : (asOperand e).eval = e.eval := by
  cases e <;> rfl

/-- Evaluation does not see the parentheses: values, failures and which operand
fails first stay the same. -/
theorem eval_parenthesize (e : Expr) : (parenthesize e).eval = e.eval := by
  induction e with
  | missing => rfl
  | literal v => rfl
  | grouping e ih => exact ih
  | unary op e ih =>
      simp only [parenthesize, Expr.eval, eval_asOperand, ih]
  | binary l op r ihl ihr =>
      simp only [parenthesize, Expr.eval, eval_asOperand, ihl, ihr]

/-! ## Shape -/

theorem unary_le_tightness_asOperand (e : Expr) :
    Level.unary.rank ≤ tightness (asOperand e) := by
  cases e with
  | unary op e => exact Nat.le_refl _
  | missing | literal | grouping | binary => exact Nat.le_succ _

theorem level_lt_tightness_asOperand (op : BinaryOp) (e : Expr) :
    op.level < tightness (asOperand e) := by
  have low : op.level < Level.unary.rank := Nat.lt_succ_of_le (level_le_factor op)
  have high := unary_le_tightness_asOperand e
  omega

theorem canonical_asOperand {leaf : Value → Prop} {e : Expr} (h : Canonical leaf e) :
    Canonical leaf (asOperand e) := by
  cases e <;> exact h

/-- Parentheses make a tree of any shape canonical. -/
theorem Sound.canonical_parenthesize {leaf leaf' : Value → Prop} {e : Expr}
    (weaken : ∀ v, leaf v → leaf' v) (h : Sound leaf e) : Canonical leaf' (parenthesize e) := by
  induction e with
  | missing => cases h
  | literal v => exact weaken v h
  | grouping e ih => exact ih h
  | unary op e ih =>
      obtain ⟨known, operand⟩ := h
      exact ⟨known, canonical_asOperand (ih operand), unary_le_tightness_asOperand _⟩
  | binary l op r ihl ihr =>
      obtain ⟨known, left, right⟩ := h
      refine ⟨known, canonical_asOperand (ihl left), canonical_asOperand (ihr right), ?_, ?_⟩
      · exact Nat.le_of_lt (level_lt_tightness_asOperand op _)
      · exact level_lt_tightness_asOperand op _

theorem quoteWords_asOperand (e : Expr) : quoteWords (asOperand e) = asOperand (quoteWords e) := by
  cases e <;> rfl

/-- Writable leaves read back as they are. -/
theorem Sound.quoteWords_parenthesize {e : Expr} (h : Sound Writable e) :
    quoteWords (parenthesize e) = parenthesize e := by
  induction e with
  | missing => rfl
  | literal v =>
      simp only [parenthesize, quoteWords, Writable.quoteWord_eq h]
  | grouping e ih =>
      simp only [parenthesize, quoteWords, ih h]
  | unary op e ih =>
      simp only [parenthesize, quoteWords, quoteWords_asOperand, ih h.2]
  | binary l op r ihl ihr =>
      simp only [parenthesize, quoteWords, quoteWords_asOperand, ihl h.2.1, ihr h.2.2]

/-! ## Source texts -/

/-- `Reads text e`: the text has no errors, and both ways to read its tokens give the
tree `e`, all of them being taken. -/
structure Reads (text : Bytes) (e : Expr) : Prop where
  scanned : errors text = []
  alone : readExpr (tokens text) = .ok e [endToken text]
  batch : readAll (tokens text) = ⟨[e], [], [endToken text], none⟩

theorem Grammar.Spells.reads {text : Bytes} {ps : List Piece} {level : Level} {e : Expr}
    (h : Spells text ps level e) : Reads text e := by
  obtain ⟨ts, split, sentence⟩ := h.tokens_eq
  have alone : readExpr (tokens text) = .ok e [endToken text] := by
    rw [split]
    exact readExpr_of_sentence sentence (show Kind.eof ∉ joints by decide)
  refine ⟨errors_eq_nil ?_, alone, readAll_of_readExpr rfl alone⟩
  rw [h.pieces_eq]
  exact h.clean

theorem Sound.eval_cases {leaf : Value → Prop} {e : Expr} (h : Sound leaf e) :
    (∃ v, e.eval = .ok v) ∨ ∃ error, e.eval = .error (.runtime error) := by
  cases outcome : e.eval with
  | ok v => exact .inl ⟨v, rfl⟩
  | error failure =>
      cases failure with
      | runtime error => exact .inr ⟨error, rfl⟩
      | fault fault => exact absurd outcome (h.eval_ne_fault fault)

/-- **Every tree can be written down.** Let the operators of a tree be known and its
leaves be writable; its shape may be any. With parentheses around its binary
operands it prints a text that reads without errors, and the tree that is read has
the outcome of the tree: the same value, or the same failed operation. -/
theorem expressible (e : Expr) (sound : Sound Writable e) :
    ∃ text parsed, Form.infixForm.print (parenthesize e) = .ok text ∧ Reads text parsed ∧
      ((∃ v, e.eval = .ok v ∧ parsed.eval = .ok v) ∨
        ∃ error, e.eval = .error (.runtime error) ∧ parsed.eval = .error (.runtime error)) := by
  have canonical : Canonical Printable (parenthesize e) :=
    sound.canonical_parenthesize fun v => Writable.printable
  obtain ⟨text, ps, level, printed, spells, _⟩ := canonical.spells
  rw [sound.quoteWords_parenthesize] at spells
  refine ⟨text, parenthesize e, printed, spells.reads, ?_⟩
  rw [eval_parenthesize]
  rcases sound.eval_cases with ⟨v, value⟩ | ⟨error, failed⟩
  · exact .inl ⟨v, value, value⟩
  · exact .inr ⟨error, failed, failed⟩

/-- A difference on the right of a difference, under a product, and a negated sum of
texts: reading never gives such a tree, and its evaluation fails. -/
theorem expressible_sample :
    let half : Expr := .literal (.double (.finite false ⟨0x3FE0000000000000, by decide⟩))
    let slashes : Expr := .literal (.text (Bytes.ofString "//"))
    let difference : Expr := .binary half .subtract (.binary half .subtract half)
    let e : Expr := .binary difference .multiply (.unary .negative (.binary slashes .add half))
    Sound Writable e ∧ ∃ text parsed, Form.infixForm.print (parenthesize e) = .ok text ∧
      Reads text parsed ∧
      ((∃ v, e.eval = .ok v ∧ parsed.eval = .ok v) ∨
        ∃ error, e.eval = .error (.runtime error) ∧ parsed.eval = .error (.runtime error)) := by
  intro half slashes difference e
  have leaf : Sound Writable half := trivial
  have text : Sound Writable slashes := (by decide : Ascii.quote ∉ Bytes.ofString "//")
  have left : Sound Writable difference := ⟨by decide, leaf, by decide, leaf, leaf⟩
  have sound : Sound Writable e := ⟨by decide, left, by decide, by decide, text, leaf⟩
  exact ⟨sound, expressible e sound⟩

end Reckon
