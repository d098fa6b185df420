import Reckon.Proofs.Separation

/-!
# Postfix text

Postfix text puts nothing around a binary node. It is a row of items with spaces between
them, operands and binary operators (`items`), and two arguments make it readable:

* the items are seen: an item says by its first bytes of which sort it is (`start`), in
  particular `!` before an operand and `!=` differ, and by its sort where it ends, so
  items separate (`separates_items`);
* the row of items is the program of a stack machine (`assemble`), and running the items
  of a tree leaves the tree (`assemble_items`).

A unary operator is written as a mark before its operand. With a binary operand it would
take the first item of it only, so such trees are left out (`UnaryTight`); reading gives
none of them (`unaryTight_of_read`).
-/

namespace Reckon

open Grammar Reckon.Parser Source

/-! ## The stack machine -/

/-- What stands between two spaces: an operand that is no binary node, or an operator. -/
inductive Item
  | atom (e : Expr)
  | operator (op : BinaryOp)

/-- The items of a tree, operators after their operands. -/
def items : Expr → List Item
  | .binary l op r => items l ++ items r ++ [.operator op]
  | e => [.atom e]

/-- Works off items on a stack: operands are put on it, and an operator takes two trees
off it. Without them nothing can be made. -/
def assemble : List Item → List Expr → List Expr
  | [], stack => stack
  | .atom e :: more, stack => assemble more (e :: stack)
  | .operator op :: more, r :: l :: stack => assemble more (.binary l op r :: stack)
  | .operator _ :: _, _ => []

/-- The items of a tree put the tree on the stack, whatever stands there and whatever
follows. -/
theorem assemble_items (e : Expr) (more : List Item) (stack : List Expr) :
    assemble (items e ++ more) stack = assemble more (e :: stack) := by
  induction e generalizing more stack with
  | missing | literal | grouping | unary => rfl
  | binary l op r ihl ihr =>
      rw [items, List.append_assoc, List.append_assoc, ihl, ihr]
      rfl

theorem items_injective : Function.Injective items := by
  intro e e' same
  have left := assemble_items e [] []
  have right := assemble_items e' [] []
  rw [same, right] at left
  exact (List.cons.inj left).1.symm

/-! ## Trees that can be written -/

/-- A tree that is no binary node. -/
def Compact (e : Expr) : Prop := ∀ l op r, e ≠ .binary l op r

theorem Compact.items_eq {e : Expr} (h : Compact e) : items e = [.atom e] := by
  cases e with
  | binary l op r => exact absurd rfl (h l op r)
  | missing | literal | grouping | unary => rfl

/-- No unary operator has a binary node as its operand. -/
def UnaryTight : Expr → Prop
  | .missing | .literal _ => True
  | .grouping e => UnaryTight e
  | .unary _ e => Compact e ∧ UnaryTight e
  | .binary l _ r => UnaryTight l ∧ UnaryTight r

theorem compact_quoteWords {e : Expr} (h : Compact e) : Compact (quoteWords e) := by
  cases e with
  | binary l op r => exact absurd rfl (h l op r)
  | missing | literal | grouping | unary => exact nofun

theorem UnaryTight.quoteWords {e : Expr} (h : UnaryTight e) : UnaryTight (quoteWords e) := by
  induction e with
  | missing => trivial
  | literal v => trivial
  | grouping e ih => exact ih h
  | unary op e ih => exact ⟨compact_quoteWords h.1, ih h.2⟩
  | binary l op r ihl ihr => exact ⟨ihl h.1, ihr h.2⟩

/-- In canonical trees a unary operator binds more tightly than a binary one. -/
theorem Grammar.Canonical.unaryTight {leaf : Value → Prop} {e : Expr} (h : Canonical leaf e) :
    UnaryTight e := by
  induction e with
  | missing => trivial
  | literal v => trivial
  | grouping e ih => exact ih h
  | unary op e ih =>
      obtain ⟨_, canonical, tight⟩ := h
      refine ⟨?_, ih canonical⟩
      rintro l op' r rfl
      have loose : op'.level < Level.unary.rank := Nat.lt_succ_of_le (level_le_factor op')
      exact absurd tight (Nat.not_le_of_lt loose)
  | binary l op r ihl ihr => exact ⟨ihl h.2.1, ihr h.2.2.1⟩

/-- What is read from tokens, alone or in a batch, can be written. -/
theorem unaryTight_of_read {tokens : List Token} {e : Expr}
    (read : (∃ rest, readExpr tokens = .ok e rest) ∨ e ∈ (readAll tokens).exprs) :
    UnaryTight e := by
  obtain ⟨ts, sentence⟩ : ∃ ts, Sentence ts e := by
    rcases read with ⟨rest, alone⟩ | batch
    · obtain ⟨ts, _, sentence, _⟩ := sentence_of_readExpr alone
      exact ⟨ts, sentence⟩
    · obtain ⟨ts, _, sentence⟩ := exists_sentence_of_mem_readAll batch
      exact ⟨ts, sentence⟩
  have canonical : Canonical (fun _ => True) e :=
    (sentence.canonical (fun _ _ => trivial) (fun _ _ _ _ _ => trivial)).1
  exact canonical.unaryTight

/-- `Stacked e t`: the tree `e`, which can be written and all of whose leaves are told, is
written as `t`. -/
structure Stacked (e : Expr) (t : Bytes) : Prop where
  sound : Sound Told e
  tight : UnaryTight e
  print : Form.rpn.print e = .ok t

theorem Stacked.literal {v : Value} {t : Bytes} (h : Stacked (.literal v) t) :
    Told v ∧ v.leafText = t :=
  ⟨h.sound, Except.ok.inj h.print⟩

theorem Stacked.grouping {e : Expr} {t : Bytes} (h : Stacked (.grouping e) t) :
    ∃ s, Stacked e s ∧ t = Ascii.leftParen :: s ++ [Ascii.rightParen] := by
  obtain ⟨s, inner, rfl⟩ := Expr.fold_grouping_inv h.print
  exact ⟨s, ⟨h.sound, h.tight, inner⟩, rfl⟩

theorem Stacked.unary {op : UnaryOp} {e : Expr} {t : Bytes} (h : Stacked (.unary op e) t) :
    ∃ mark s, Expr.postfixMark op = .ok mark ∧ Compact e ∧ Stacked e s ∧ t = mark ++ s := by
  obtain ⟨s, operand, made⟩ := Expr.fold_unary_inv h.print
  obtain ⟨mark, marks, shape⟩ := bind_eq_ok made
  cases shape
  exact ⟨mark, s, marks, h.tight.1, ⟨h.sound.2, h.tight.2, operand⟩, rfl⟩

theorem Stacked.binary {l r : Expr} {op : BinaryOp} {t : Bytes}
    (h : Stacked (.binary l op r) t) :
    ∃ left right symbol, Stacked l left ∧ Stacked r right ∧ op.symbol = .ok symbol ∧
      t = left ++ Ascii.space :: right ++ Ascii.space :: symbol := by
  obtain ⟨left, right, printed, printed', made⟩ := Expr.fold_binary_inv h.print
  obtain ⟨symbol, known, shape⟩ := bind_eq_ok made
  cases shape
  exact ⟨left, right, symbol, ⟨h.sound.2.1, h.tight.1, printed⟩,
    ⟨h.sound.2.2, h.tight.2, printed'⟩, known, rfl⟩

/-! ## The text of a tree is that of its items -/

namespace Item

/-- What an item is written as. -/
def Writes : Item → Bytes → Prop
  | .atom e, t => Compact e ∧ Stacked e t
  | .operator op, t => op.symbol = .ok t

end Item

/-- The text of a tree is that of its items, with spaces between them. -/
theorem Stacked.exists_items {e : Expr} {t : Bytes} (h : Stacked e t) :
    ∃ texts, List.Forall₂ Item.Writes (items e) texts ∧ spaced texts = Ascii.space :: t := by
  induction e generalizing t with
  | missing => cases h.sound
  | literal | grouping | unary =>
      refine ⟨[t], .cons ⟨?_, h⟩ .nil, ?_⟩
      · intro l op r same
        cases same
      · rw [spaced_cons]
        simp [spaced]
  | binary l op r ihl ihr =>
      obtain ⟨left, right, symbol, writes, writes', known, rfl⟩ := h.binary
      obtain ⟨lefts, written, shape⟩ := ihl writes
      obtain ⟨rights, written', shape'⟩ := ihr writes'
      have operator : List.Forall₂ Item.Writes [.operator op] [symbol] := .cons known .nil
      refine ⟨lefts ++ rights ++ [symbol],
        List.rel_append (List.rel_append written written') operator, ?_⟩
      rw [spaced_append, spaced_append, shape, shape', spaced_cons]
      simp [spaced]

/-- If the items of a tree separate, then so does the tree where nothing more of a row can
follow. -/
theorem Stacked.cancel {e e' : Expr} {s t rest rest' : Bytes}
    (each : ∀ i ∈ items e, Separates Item.Writes i) (h : Stacked e s) (h' : Stacked e' t)
    (final : Final rest) (final' : Final rest') (same : s ++ rest = t ++ rest') :
    e = e' ∧ rest = rest' := by
  obtain ⟨texts, written, shape⟩ := h.exists_items
  obtain ⟨texts', written', shape'⟩ := h'.exists_items
  have rows : spaced texts ++ rest = spaced texts' ++ rest' := by
    rw [shape, shape', List.cons_append, List.cons_append, same]
  obtain ⟨alike, rfl⟩ := Separates.spaced each written written' final final' rows
  exact ⟨items_injective alike, rfl⟩

/-! ## How items start -/

/-- What the first bytes of an item can say. -/
inductive Start
  | group
  | quoted
  | marked (op : UnaryOp)
  | word

/-- The sort of item that a text starts with. A `!` marks a negation if no `=` follows. -/
def start : Bytes → Start
  | [] => .word
  | b :: more =>
      if b = Ascii.leftParen then .group
      else if b = Ascii.quote then .quoted
      else if b = Ascii.tilde then .marked .negative
      else if b = Ascii.bang ∧ more.head? ≠ some Ascii.equals then .marked .not
      else .word

/-- The sort of an item. -/
def Item.start : Item → Start
  | .atom (.grouping _) => .group
  | .atom (.literal (.text _)) => .quoted
  | .atom (.unary op _) => .marked op
  | _ => .word

theorem NumberText.start_eq {text : Bytes} (h : NumberText text) (rest : Bytes) :
    start (text ++ rest) = .word := by
  obtain ⟨b, more, rfl, figure⟩ := h.starts
  have paren : b ≠ Ascii.leftParen := Bytes.ne_of_isFigure figure (by decide)
  have quote : b ≠ Ascii.quote := Bytes.ne_of_isFigure figure (by decide)
  have tilde : b ≠ Ascii.tilde := Bytes.ne_of_isFigure figure (by decide)
  have bang : b ≠ Ascii.bang := Bytes.ne_of_isFigure figure (by decide)
  simp [Reckon.start, paren, quote, tilde, bang]

/-- No tree starts with `=`, so a mark before it is not taken for `!=`. -/
theorem Stacked.opens {e : Expr} {t : Bytes} (h : Stacked e t) :
    ∃ b more, t = b :: more ∧ b ≠ Ascii.equals := by
  induction e generalizing t with
  | missing => cases h.sound
  | literal v =>
      obtain ⟨told, rfl⟩ := h.literal
      rcases told.cases with ⟨t, rfl, _⟩ | ⟨_, number⟩
      · exact ⟨_, _, rfl, by decide⟩
      · obtain ⟨b, more, shape, figure⟩ := number.starts
        exact ⟨b, more, shape, Bytes.ne_of_isFigure figure (by decide)⟩
  | grouping e =>
      obtain ⟨s, _, rfl⟩ := h.grouping
      exact ⟨_, _, rfl, by decide⟩
  | unary op e =>
      obtain ⟨mark, s, marks, _, _, rfl⟩ := h.unary
      cases op with
      | unknown code => cases marks
      | _ =>
          cases marks
          exact ⟨_, _, rfl, by decide⟩
  | binary l op r ihl =>
      obtain ⟨left, right, symbol, writes, _, _, rfl⟩ := h.binary
      obtain ⟨b, more, rfl, other⟩ := ihl writes
      exact ⟨b, _, rfl, other⟩

/-- The first bytes of an item tell its sort. -/
theorem Item.Writes.start_eq {i : Item} {t : Bytes} (h : i.Writes t) (rest : Bytes) :
    Reckon.start (t ++ rest) = i.start := by
  cases i with
  | operator op =>
      cases op with
      | unknown code => cases h
      | _ =>
          cases h
          rfl
  | atom e =>
      obtain ⟨compact, stacked⟩ := h
      cases e with
      | missing => cases stacked.sound
      | binary l op r => exact absurd rfl (compact l op r)
      | literal v =>
          obtain ⟨told, rfl⟩ := stacked.literal
          rcases told.cases with ⟨t, rfl, _⟩ | ⟨numeric, number⟩
          · rfl
          · rw [number.start_eq rest]
            cases v with
            | text => cases numeric
            | _ => rfl
      | grouping e =>
          obtain ⟨s, _, rfl⟩ := stacked.grouping
          rfl
      | unary op e =>
          obtain ⟨mark, s, marks, _, operand, rfl⟩ := stacked.unary
          cases op with
          | unknown code => cases marks
          | negative =>
              cases marks
              rfl
          | not =>
              cases marks
              -- the operand does not turn the mark into `!=`
              obtain ⟨b, more, rfl, other⟩ := operand.opens
              simp +decide [Reckon.start, Item.start, other]

theorem Item.exists_grouping {i : Item} (h : i.start = .group) : ∃ e, i = .atom (.grouping e) := by
  cases i with
  | operator op => cases h
  | atom e =>
      cases e with
      | grouping e => exact ⟨e, rfl⟩
      | literal v => cases v <;> cases h
      | missing | unary | binary => cases h

theorem Item.exists_unary {i : Item} {op : UnaryOp} (h : i.start = .marked op) :
    ∃ e, i = .atom (.unary op e) := by
  cases i with
  | operator op => cases h
  | atom e =>
      cases e with
      | unary op e =>
          cases h
          exact ⟨e, rfl⟩
      | literal v => cases v <;> cases h
      | missing | grouping | binary => cases h

/-- Items that start one text are of one sort. -/
theorem Item.Writes.start_alike {i j : Item} {s t rest rest' : Bytes} (h : i.Writes s)
    (h' : j.Writes t) (same : s ++ rest = t ++ rest') : i.start = j.start := by
  rw [← h.start_eq rest, ← h'.start_eq rest', same]

/-! ## Items separate -/

/-- No leaf starts as an operator does and ends where the operator ends. -/
theorem Told.append_ne_symbol {v : Value} {op : BinaryOp} {symbol rest rest' : Bytes}
    (told : Told v) (known : op.symbol = .ok symbol) (closing : Closing rest)
    (closing' : Closing rest') : v.leafText ++ rest ≠ symbol ++ rest' := by
  have silent : ∀ entry ∈ BinaryOp.symbols, entry.2.any Bytes.isTelling = false := by decide
  intro same
  rcases told.cases with ⟨t, rfl, _⟩ | ⟨_, number⟩
  · -- a quote starts no operator
    have quoted := congrArg start same
    rw [Item.Writes.start_eq (i := .operator op) known rest'] at quoted
    cases quoted
  · -- both are words, so they would be one word; but `-1` has a digit and `+Inf` a letter
    obtain ⟨rfl, _⟩ := run_cancel number.inner (BinaryOp.symbol_inner known) closing.ends_inner
      closing'.ends_inner same
    have tells := number.telling
    rw [silent _ (BinaryOp.mem_symbols known)] at tells
    cases tells

/-- An operator separates: leaves that start like it have bytes it has not. -/
theorem separates_operator (op : BinaryOp) : Separates Item.Writes (.operator op) := by
  intro j s t rest rest' known written closing closing' same
  have sorts := Item.Writes.start_alike known written same
  cases j with
  | operator op' =>
      obtain ⟨rfl, rfl⟩ := op.separates op' s t rest rest' known written closing closing' same
      exact ⟨rfl, rfl⟩
  | atom e =>
      obtain ⟨compact, stacked⟩ := written
      cases e with
      | missing => cases stacked.sound
      | binary l op r => exact absurd rfl (compact l op r)
      | literal v =>
          obtain ⟨told, rfl⟩ := stacked.literal
          exact absurd same.symm (told.append_ne_symbol known closing' closing)
      | grouping | unary => cases sorts

theorem separates_literal (v : Value) : Separates Item.Writes (.atom (.literal v)) := by
  intro j s t rest rest' written written' closing closing' same
  have sorts := written.start_alike written' same
  obtain ⟨told, rfl⟩ := written.2.literal
  cases j with
  | operator op => exact absurd same (told.append_ne_symbol written' closing closing')
  | atom e =>
      obtain ⟨compact, stacked⟩ := written'
      cases e with
      | missing => cases stacked.sound
      | binary l op r => exact absurd rfl (compact l op r)
      | literal w =>
          obtain ⟨rfl, rfl⟩ := Told.separates w _ _ rest rest' ⟨told, rfl⟩ stacked.literal
            closing closing' same
          exact ⟨rfl, rfl⟩
      | grouping | unary =>
          -- by their first bytes the two are of different sorts
          cases v <;> cases sorts

/-- A group separates if the items in it do: its closing parenthesis ends their row. -/
theorem separates_grouping {e : Expr} (each : ∀ i ∈ items e, Separates Item.Writes i) :
    Separates Item.Writes (.atom (.grouping e)) := by
  intro j s t rest rest' written written' _ _ same
  have sorts := written.start_alike written' same
  obtain ⟨s, inner, rfl⟩ := written.2.grouping
  obtain ⟨e', rfl⟩ := Item.exists_grouping sorts.symm
  obtain ⟨t, inner', rfl⟩ := written'.2.grouping
  simp only [List.cons_append, List.append_assoc, List.nil_append, List.cons.injEq,
    true_and] at same
  obtain ⟨rfl, closes⟩ := inner.cancel each inner' (final_rightParen rest)
    (final_rightParen rest') same
  exact ⟨rfl, (List.cons.inj closes).2⟩

/-- A marked operand separates if the operand does. -/
theorem separates_unary {op : UnaryOp} {e : Expr} (operand : Separates Item.Writes (.atom e)) :
    Separates Item.Writes (.atom (.unary op e)) := by
  intro j s t rest rest' written written' closing closing' same
  have sorts := written.start_alike written' same
  obtain ⟨mark, s, marks, compact, stacked, rfl⟩ := written.2.unary
  obtain ⟨e', rfl⟩ := Item.exists_unary sorts.symm
  obtain ⟨mark', t, marks', compact', stacked', rfl⟩ := written'.2.unary
  obtain rfl : mark = mark' := Except.ok.inj (marks.symm.trans marks')
  rw [List.append_assoc, List.append_assoc] at same
  obtain ⟨alike, rfl⟩ := operand (.atom e') s t rest rest' ⟨compact, stacked⟩ ⟨compact', stacked'⟩
    closing closing' (List.append_cancel_left same)
  obtain rfl := Item.atom.inj alike
  exact ⟨rfl, rfl⟩

/-- Every item of a row separates. -/
theorem separates_items (e : Expr) : ∀ i ∈ items e, Separates Item.Writes i := by
  induction e with
  | missing =>
      refine List.forall_mem_singleton.mpr ?_
      intro _ _ _ _ _ written
      cases written.2.sound
  | literal v => exact List.forall_mem_singleton.mpr (separates_literal v)
  | grouping e ih => exact List.forall_mem_singleton.mpr (separates_grouping ih)
  | unary op e ih =>
      refine List.forall_mem_singleton.mpr ?_
      intro j s t rest rest' written
      -- the operand is one item, because the tree can be written
      have compact : Compact e := written.2.tight.1
      rw [compact.items_eq] at ih
      exact separates_unary (ih _ List.mem_cons_self) j s t rest rest' written
  | binary l op r ihl ihr =>
      intro i member
      simp only [items, List.mem_append, List.mem_singleton] at member
      rcases member with (left | right) | rfl
      · exact ihl i left
      · exact ihr i right
      · exact separates_operator op

/-- **The postfix form tells the tree.** What is read has no unary operator before a
binary node. Trees without one, with known operators and texts without quotes, can be
printed, and they print alike exactly if they are the same once their constants are turned
into texts. -/
theorem postfixed_tells :
    (∀ tokens e, ((∃ rest, readExpr tokens = .ok e rest) ∨ e ∈ (readAll tokens).exprs) →
      UnaryTight e) ∧
    ∀ e e', Sound Unquoted e → Sound Unquoted e' → UnaryTight e → UnaryTight e' →
      (∃ text, Form.rpn.print e = .ok text) ∧
        (Form.rpn.print e = Form.rpn.print e' ↔ quoteWords e = quoteWords e') := by
  refine ⟨fun _ _ => unaryTight_of_read, ?_⟩
  intro e e' sound sound' tight tight'
  obtain ⟨text, print⟩ := sound.print .rpn
  refine ⟨⟨text, print⟩, ?_, ?_⟩
  · intro same
    have written : Stacked (quoteWords e) text :=
      ⟨sound.told, tight.quoteWords, (print_quoteWords .rpn e).trans print⟩
    have written' : Stacked (quoteWords e') text :=
      ⟨sound'.told, tight'.quoteWords,
        (print_quoteWords .rpn e').trans (same.symm.trans print)⟩
    exact (written.cancel (separates_items _) written' final_nil final_nil rfl).1
  · intro same
    rw [← print_quoteWords .rpn e, same, print_quoteWords]

/-- A constant and its word print alike, and a negated number and a negative one do not. The
first of these trees is what is read from `!nil != -1`. -/
theorem postfixed_tells_sample :
    let mark (kind : Kind) : Token := ⟨kind, [], 1, .absent⟩
    let tokens := [mark .bang, mark .kwNil, mark .bangEqual, mark .minus,
      ⟨.number, [49], 1, .short 1⟩, mark .eof]
    let word : Expr := .literal (.text (Bytes.ofString "nil"))
    let negated : Expr := .unary .negative (.literal (.int 1))
    let e : Expr := .binary (.unary .not (.literal .nil)) .notEq negated
    let e' : Expr := .binary (.unary .not word) .notEq negated
    let f : Expr := .binary (.unary .not word) .notEq (.literal (.int (-1)))
    readExpr tokens = .ok e [mark .eof] ∧ UnaryTight e ∧ Sound Unquoted e ∧ Sound Unquoted e' ∧
      Sound Unquoted f ∧ Form.rpn.print e = Form.rpn.print e' ∧
      Form.rpn.print e' ≠ Form.rpn.print f := by
  intro mark tokens word negated e e' f
  have read : readExpr tokens = .ok e [mark .eof] := rfl
  have text : Sound Unquoted word := (by decide : Ascii.quote ∉ Bytes.ofString "nil")
  have minus : Sound Unquoted negated := ⟨by decide, trivial⟩
  have sound : Sound Unquoted e := ⟨by decide, ⟨by decide, trivial⟩, minus⟩
  have sound' : Sound Unquoted e' := ⟨by decide, ⟨by decide, text⟩, minus⟩
  have soundF : Sound Unquoted f := ⟨by decide, ⟨by decide, text⟩, trivial⟩
  have tight : UnaryTight e := postfixed_tells.1 tokens e (.inl ⟨_, read⟩)
  have tight' : UnaryTight e' := ⟨⟨nofun, trivial⟩, nofun, trivial⟩
  have tightF : UnaryTight f := ⟨⟨nofun, trivial⟩, trivial⟩
  refine ⟨read, tight, sound, sound', soundF,
    (postfixed_tells.2 e e' sound sound' tight tight').2.mpr rfl, ?_⟩
  intro same
  exact absurd ((postfixed_tells.2 e' f sound' soundF tight' tightF).2.mp same) (by decide)

/-- With a binary node behind a mark the text does not tell what the mark belongs to. -/
example : let a : Expr := .literal (.text [])
    Form.rpn.print (.unary .negative (.binary a .add a)) =
      Form.rpn.print (.binary (.unary .negative a) .add a) := rfl

end Reckon
