import Reckon.Proofs.Quoting
import Reckon.Proofs.Separation

/-!
# Forms in parentheses

Two forms put every node in parentheses, with a head word first and spaces between the
elements. The closing parenthesis is seen, because every element says where it ends:

* in the bracketed form the head is the symbol of an operator, and `-` is the head of
  negations and differences; the number of elements tells these apart
  (`Heads.unique`);
* in the debugging form the head names the sort of the node, and a literal has its
  texts quoted and escaped (`Value.debugText_separates`), so that any bytes can stand
  in them.

So each form tells the tree (`bracketed_tells`, `debugText_tells`), the bracketed one
up to constants, which it writes as texts.
-/

namespace Reckon

open Grammar Source

/-! ## Nodes in parentheses -/

theorem join_space (head : Bytes) (parts : List Bytes) :
    Bytes.join [Ascii.space] (head :: parts) = head ++ spaced parts := by
  induction parts generalizing head with
  | nil => simp [spaced]
  | cons part parts ih =>
      rw [Bytes.join, ih, spaced_cons]
      simp

/-- Nodes that start one text have the same head, and their elements go on alike. -/
theorem parenthesized_cancel {head head' rest rest' : Bytes} {parts parts' : List Bytes}
    (word : ∀ b ∈ head, isInner b = true) (word' : ∀ b ∈ head', isInner b = true)
    (same : parenthesized (head :: parts) ++ rest = parenthesized (head' :: parts') ++ rest') :
    head = head' ∧
      spaced parts ++ Ascii.rightParen :: rest = spaced parts' ++ Ascii.rightParen :: rest' := by
  have ends : ∀ (parts : List Bytes) (rest : Bytes),
      Ends isInner (spaced parts ++ Ascii.rightParen :: rest) := by
    intro parts rest
    exact (closing_spaced parts (final_rightParen rest)).ends_inner
  simp only [parenthesized, join_space, List.cons_append, List.append_assoc, List.nil_append,
    List.cons.injEq, true_and] at same
  exact run_cancel word word' (ends parts rest) (ends parts' rest') same

/-! ## The bracketed form -/

/-- `Heads e head parts`: the node `e` has that head word and those operands. -/
inductive Heads : Expr → Bytes → List Expr → Prop
  | grouping (e : Expr) : Heads (.grouping e) (Bytes.ofString "group") [e]
  | unary {op : UnaryOp} {symbol : Bytes} (e : Expr) : op.symbol = .ok symbol →
      Heads (.unary op e) symbol [e]
  | binary {op : BinaryOp} {symbol : Bytes} (l r : Expr) : op.symbol = .ok symbol →
      Heads (.binary l op r) symbol [l, r]

theorem Heads.word {e : Expr} {head : Bytes} {parts : List Expr} (h : Heads e head parts) :
    ∀ b ∈ head, isInner b = true := by
  cases h with
  | grouping =>
      have table : (Bytes.ofString "group").all isInner = true := by decide
      exact List.all_eq_true.mp table
  | unary _ symbol => exact UnaryOp.symbol_inner symbol
  | binary _ _ symbol => exact BinaryOp.symbol_inner symbol

/-- Head and operands make the node. -/
theorem Heads.unique {e e' : Expr} {head : Bytes} {parts : List Expr} (h : Heads e head parts)
    (h' : Heads e' head parts) : e = e' := by
  have noGroup : ∀ entry ∈ UnaryOp.symbols, entry.2 ≠ Bytes.ofString "group" := by decide
  cases h with
  | grouping e =>
      cases h' with
      | grouping => rfl
      | unary _ symbol => exact absurd rfl (noGroup _ (UnaryOp.mem_symbols symbol))
  | unary e symbol =>
      cases h' with
      | grouping => exact absurd rfl (noGroup _ (UnaryOp.mem_symbols symbol))
      | unary _ symbol' => rw [UnaryOp.eq_of_symbol symbol symbol']
  | binary l r symbol =>
      cases h' with
      | binary _ _ symbol' => rw [BinaryOp.eq_of_symbol symbol symbol']

/-- `Bracketed e t`: the tree `e`, all of whose leaves are told, is written as `t`. -/
def Bracketed (e : Expr) (t : Bytes) : Prop := Sound Told e ∧ Form.lispy.print e = .ok t

theorem Bracketed.exists_heads {e : Expr} {t : Bytes} (h : Bracketed e t)
    (compound : ∀ v, e ≠ .literal v) :
    ∃ head parts texts, Heads e head parts ∧ List.Forall₂ Bracketed parts texts ∧
      t = parenthesized (head :: texts) := by
  obtain ⟨sound, print⟩ := h
  cases e with
  | missing => cases sound
  | literal v => exact absurd rfl (compound v)
  | grouping e =>
      obtain ⟨s, inner, rfl⟩ := Expr.fold_grouping_inv print
      exact ⟨_, _, [s], .grouping e, .cons ⟨sound, inner⟩ .nil, rfl⟩
  | unary op e =>
      obtain ⟨s, operand, made⟩ := Expr.fold_unary_inv print
      obtain ⟨symbol, known, shape⟩ := bind_eq_ok made
      cases shape
      exact ⟨_, _, [s], .unary e known, .cons ⟨sound.2, operand⟩ .nil, rfl⟩
  | binary l op r =>
      obtain ⟨s, t, left, right, made⟩ := Expr.fold_binary_inv print
      obtain ⟨symbol, known, shape⟩ := bind_eq_ok made
      cases shape
      exact ⟨_, _, [s, t], .binary l r known,
        .cons ⟨sound.2.1, left⟩ (.cons ⟨sound.2.2, right⟩ .nil), rfl⟩

theorem Bracketed.literal {v : Value} {t : Bytes} (h : Bracketed (.literal v) t) :
    Told v ∧ v.leafText = t :=
  ⟨h.1, Except.ok.inj h.2⟩

/-- No leaf starts with a parenthesis. -/
theorem Told.append_ne_leftParen {v : Value} (h : Told v) (rest rest' : Bytes) :
    v.leafText ++ rest ≠ Ascii.leftParen :: rest' := by
  rcases h.cases with ⟨t, rfl, _⟩ | ⟨_, number⟩
  · intro same
    exact absurd (List.cons.inj same).1 (by decide)
  · exact number.append_ne (by decide) rest rest'

/-- A node separates if its operands do. -/
theorem separates_node {e : Expr} (compound : ∀ v, e ≠ .literal v)
    (each : ∀ head parts, Heads e head parts → ∀ p ∈ parts, Separates Bracketed p) :
    Separates Bracketed e := by
  intro e' s t rest rest' written written' closing closing' same
  obtain ⟨head, parts, texts, heads, operands, rfl⟩ := written.exists_heads compound
  cases e' with
  | literal v =>
      obtain ⟨told, rfl⟩ := written'.literal
      exact absurd same.symm (told.append_ne_leftParen _ _)
  | missing => cases written'.1
  | grouping | unary | binary =>
      obtain ⟨head', parts', texts', heads', operands', rfl⟩ := written'.exists_heads nofun
      obtain ⟨rfl, behind⟩ := parenthesized_cancel heads.word heads'.word same
      obtain ⟨rfl, rest_eq⟩ := Separates.spaced (each head parts heads) operands operands'
        (final_rightParen rest) (final_rightParen rest') behind
      exact ⟨heads.unique heads', (List.cons.inj rest_eq).2⟩

/-- Every tree separates in the bracketed form. -/
theorem separates_bracketed (e : Expr) : Separates Bracketed e := by
  induction e with
  | missing =>
      intro _ _ _ _ _ written
      cases written.1
  | literal v =>
      intro e' s t rest rest' written written' closing closing' same
      obtain ⟨told, rfl⟩ := written.literal
      cases e' with
      | literal w =>
          obtain ⟨rfl, rfl⟩ := Told.separates w _ _ rest rest' written.literal written'.literal
            closing closing' same
          exact ⟨rfl, rfl⟩
      | missing => cases written'.1
      | grouping | unary | binary =>
          obtain ⟨head, parts, texts, _, _, rfl⟩ := written'.exists_heads nofun
          exact absurd same (told.append_ne_leftParen _ _)
  | grouping e ih =>
      refine separates_node nofun ?_
      intro head parts heads
      cases heads
      simpa using ih
  | unary op e ih =>
      refine separates_node nofun ?_
      intro head parts heads
      cases heads
      simpa using ih
  | binary l op r ihl ihr =>
      refine separates_node nofun ?_
      intro head parts heads
      cases heads
      simpa using ⟨ihl, ihr⟩

/-- **The bracketed form tells the tree.** Trees of any shape with known operators,
whose texts have no quotes, can be printed, and they print alike exactly if they are
the same once their constants are turned into texts. -/
theorem bracketed_tells (e e' : Expr) (sound : Sound Unquoted e) (sound' : Sound Unquoted e') :
    (∃ text, Form.lispy.print e = .ok text) ∧
      (Form.lispy.print e = Form.lispy.print e' ↔ quoteWords e = quoteWords e') := by
  obtain ⟨text, print⟩ := sound.print .lispy
  refine ⟨⟨text, print⟩, ?_, ?_⟩
  · intro same
    have written : Bracketed (quoteWords e) text :=
      ⟨sound.told, (print_quoteWords .lispy e).trans print⟩
    have written' : Bracketed (quoteWords e') text :=
      ⟨sound'.told, (print_quoteWords .lispy e').trans (same.symm.trans print)⟩
    exact (separates_bracketed _ _ text text [] [] written written' Closing.nil Closing.nil rfl).1
  · intro same
    rw [← print_quoteWords .lispy e, same, print_quoteWords]

/-- A constant and its word print alike; a negated one and the number `-1` do not. -/
theorem bracketed_tells_sample :
    let word : Expr := .literal (.text (Bytes.ofString "nil"))
    let negated : Expr := .unary .negative (.literal (.int 1))
    let e : Expr := .binary (.literal .nil) .subtract negated
    let e' : Expr := .binary word .subtract negated
    let f : Expr := .binary word .subtract (.literal (.int (-1)))
    Sound Unquoted e ∧ Sound Unquoted e' ∧ Sound Unquoted f ∧
      Form.lispy.print e = Form.lispy.print e' ∧ Form.lispy.print e' ≠ Form.lispy.print f := by
  intro word negated e e' f
  have text : Sound Unquoted word := (by decide : Ascii.quote ∉ Bytes.ofString "nil")
  have minus : Sound Unquoted negated := ⟨by decide, trivial⟩
  have sound : Sound Unquoted e := ⟨by decide, trivial, minus⟩
  have sound' : Sound Unquoted e' := ⟨by decide, text, minus⟩
  have soundF : Sound Unquoted f := ⟨by decide, text, trivial⟩
  refine ⟨sound, sound', soundF, (bracketed_tells e e' sound sound').2.mpr rfl, ?_⟩
  intro same
  exact absurd ((bracketed_tells e' f sound' soundF).2.mp same) (by decide)

/-! ## Literals of the debugging form -/

/-- The constants. -/
def constantValues : List Value := [.nil, .bool true, .bool false]

/-- A value whose text in the debugging form is a word: a number or a constant. -/
def Worded (v : Value) : Prop := Numeric v ∨ v ∈ constantValues

theorem text_or_worded (v : Value) : (∃ t, v = .text t) ∨ Worded v := by
  cases v with
  | nil => exact .inr (.inr (by decide))
  | bool b => exact .inr (.inr ((by decide : ∀ b, Value.bool b ∈ constantValues) b))
  | int n => exact .inr (.inl trivial)
  | double d => exact .inr (.inl trivial)
  | text t => exact .inl ⟨t, rfl⟩

theorem Worded.inner {v : Value} (h : Worded v) : ∀ b ∈ v.debugText, isInner b = true := by
  rcases h with numeric | constant
  · rw [numeric.leaf.2]
    exact numeric.numberText.inner
  · have table : ∀ v ∈ constantValues, v.debugText.all isInner = true := by decide
    exact List.all_eq_true.mp (table v constant)

/-- Words do not start as a text or a node does. -/
theorem Worded.append_ne {v : Value} (h : Worded v) {c : UInt8}
    (opening : c = Ascii.quote ∨ c = Ascii.leftParen) (rest rest' : Bytes) :
    v.debugText ++ rest ≠ c :: rest' := by
  rcases h with numeric | constant
  · have other : Bytes.isFigure c = false := by
      rcases opening with rfl | rfl <;> decide
    rw [numeric.leaf.2]
    exact numeric.numberText.append_ne other rest rest'
  · have table : ∀ v ∈ constantValues, v.debugText ≠ [] ∧ Ascii.quote ∉ v.debugText ∧
        Ascii.leftParen ∉ v.debugText := by decide
    obtain ⟨nonempty, noQuote, noParen⟩ := table v constant
    have absent : c ∉ v.debugText := by
      rcases opening with rfl | rfl
      · exact noQuote
      · exact noParen
    intro same
    obtain ⟨b, more, shape⟩ := List.exists_cons_of_ne_nil nonempty
    rw [shape] at same absent
    exact absent ((List.cons.inj same).1 ▸ List.mem_cons_self)

/-- Numbers and constants have one word each. -/
theorem Worded.eq_of_debugText {v w : Value} (h : Worded v) (h' : Worded w)
    (same : v.debugText = w.debugText) : v = w := by
  have silent : ∀ v ∈ constantValues, v.debugText.any Bytes.isTelling = false := by decide
  have words : ∀ v ∈ constantValues, ∀ w ∈ constantValues, v.debugText = w.debugText → v = w := by
    decide
  -- a number has a byte that no constant has
  have apart : ∀ {v w : Value}, Numeric v → w ∈ constantValues → v.debugText ≠ w.debugText := by
    intro v w numeric constant same
    have tells := numeric.numberText.telling
    rw [← numeric.leaf.2, same, silent w constant] at tells
    cases tells
  rcases h with numeric | constant
  · rcases h' with numeric' | constant'
    · rw [numeric.leaf.2, numeric'.leaf.2] at same
      exact numeric.eq_of_display numeric' same
    · exact absurd same (apart numeric constant')
  · rcases h' with numeric' | constant'
    · exact absurd same.symm (apart numeric' constant)
    · exact words v constant w constant' same

/-- **Literals separate,** whatever bytes their texts have. -/
theorem Value.debugText_separates (v : Value) : Separates (fun v t => v.debugText = t) v := by
  rintro w s t rest rest' rfl rfl closing closing' same
  rcases text_or_worded v with ⟨t, rfl⟩ | word
  · rcases text_or_worded w with ⟨t', rfl⟩ | word'
    · obtain ⟨rfl, rfl⟩ := Bytes.quoted_cancel same
      exact ⟨rfl, rfl⟩
    · exact absurd same.symm (word'.append_ne (.inl rfl) _ _)
  · rcases text_or_worded w with ⟨t', rfl⟩ | word'
    · exact absurd same (word.append_ne (.inl rfl) _ _)
    · obtain ⟨words, rfl⟩ := run_cancel word.inner word'.inner closing.ends_inner
        closing'.ends_inner same
      exact ⟨word.eq_of_debugText word' words, rfl⟩

/-! ## The debugging form -/

/-- The sorts of nodes that the debugging form names. -/
inductive NodeSort
  | literal
  | grouping
  | unary
  | binary
  deriving DecidableEq

namespace NodeSort

/-- The name of a sort. -/
def word : NodeSort → Bytes
  | literal => Bytes.ofString "literal"
  | grouping => Bytes.ofString "grouping"
  | unary => Bytes.ofString "unary"
  | binary => Bytes.ofString "binary"

theorem word_inner (sort : NodeSort) : ∀ b ∈ sort.word, isInner b = true := by
  have table : sort.word.all isInner = true := by
    cases sort <;> decide
  exact List.all_eq_true.mp table

theorem word_injective : Function.Injective word := by
  have table : ∀ x ∈ [literal, grouping, unary, binary], ∀ y ∈ [literal, grouping, unary, binary],
      x.word = y.word → x = y := by decide
  have listed : ∀ x, x ∈ [literal, grouping, unary, binary] := by
    intro x
    cases x <;> decide
  intro x y same
  exact table x (listed x) y (listed y) same

end NodeSort

/-- `Shown e sort parts`: in the debugging form the node `e` has the name of that sort
and those elements. -/
inductive Shown : Expr → NodeSort → List Bytes → Prop
  | literal (v : Value) : Shown (.literal v) .literal [v.debugText]
  | grouping {e : Expr} {inner : Bytes} : e.fold Expr.debugging = .ok inner →
      Shown (.grouping e) .grouping [inner]
  | unary {op : UnaryOp} {e : Expr} {symbol operand : Bytes} : op.symbol = .ok symbol →
      e.fold Expr.debugging = .ok operand → Shown (.unary op e) .unary [symbol, operand]
  | binary {l r : Expr} {op : BinaryOp} {left symbol right : Bytes} :
      l.fold Expr.debugging = .ok left → op.symbol = .ok symbol →
      r.fold Expr.debugging = .ok right →
      Shown (.binary l op r) .binary [left, symbol, right]

theorem exists_shown {e : Expr} {t : Bytes} (h : e.fold Expr.debugging = .ok t) :
    ∃ sort parts, Shown e sort parts ∧ t = parenthesized (sort.word :: parts) := by
  cases e with
  | missing => cases h
  | literal v =>
      cases h
      exact ⟨_, _, .literal v, rfl⟩
  | grouping e =>
      obtain ⟨s, inner, rfl⟩ := Expr.fold_grouping_inv h
      exact ⟨_, _, .grouping inner, rfl⟩
  | unary op e =>
      obtain ⟨s, operand, made⟩ := Expr.fold_unary_inv h
      obtain ⟨symbol, known, shape⟩ := bind_eq_ok made
      cases shape
      exact ⟨_, _, .unary known operand, rfl⟩
  | binary l op r =>
      obtain ⟨s, t, left, right, made⟩ := Expr.fold_binary_inv h
      obtain ⟨symbol, known, shape⟩ := bind_eq_ok made
      cases shape
      exact ⟨_, _, .binary left known right, rfl⟩

/-- Nodes that start one text are of one sort, and their elements go on alike. -/
theorem shown_alike {e e' : Expr} {s t rest rest' : Bytes}
    (written : e.fold Expr.debugging = .ok s) (written' : e'.fold Expr.debugging = .ok t)
    (same : s ++ rest = t ++ rest') :
    ∃ sort parts parts', Shown e sort parts ∧ Shown e' sort parts' ∧
      spaced parts ++ Ascii.rightParen :: rest = spaced parts' ++ Ascii.rightParen :: rest' := by
  obtain ⟨sort, parts, shown, rfl⟩ := exists_shown written
  obtain ⟨sort', parts', shown', rfl⟩ := exists_shown written'
  obtain ⟨words, behind⟩ := parenthesized_cancel sort.word_inner sort'.word_inner same
  obtain rfl := NodeSort.word_injective words
  exact ⟨sort, parts, parts', shown, shown', behind⟩

/-- Every tree separates in the debugging form. -/
theorem separates_debugging (e : Expr) :
    Separates (fun e t => e.fold Expr.debugging = .ok t) e := by
  -- the sort of a node fixes its elements, which are told one after the other
  induction e with
  | missing =>
      intro _ _ _ _ _ written
      cases written
  | literal v =>
      intro e' s t rest rest' written written' _ _ same
      obtain ⟨sort, parts, parts', shown, shown', behind⟩ := shown_alike written written' same
      cases shown
      cases shown' with
      | literal w =>
          obtain ⟨rfl, closes⟩ := v.debugText_separates.first rfl rfl (final_rightParen rest)
            (final_rightParen rest') behind
          exact ⟨rfl, (List.cons.inj closes).2⟩
  | grouping e ih =>
      intro e' s t rest rest' written written' _ _ same
      obtain ⟨sort, parts, parts', shown, shown', behind⟩ := shown_alike written written' same
      cases shown with
      | grouping inner =>
          cases shown' with
          | grouping inner' =>
              obtain ⟨rfl, closes⟩ := ih.first inner inner' (final_rightParen rest)
                (final_rightParen rest') behind
              exact ⟨rfl, (List.cons.inj closes).2⟩
  | unary op e ih =>
      intro e' s t rest rest' written written' _ _ same
      obtain ⟨sort, parts, parts', shown, shown', behind⟩ := shown_alike written written' same
      cases shown with
      | unary symbol operand =>
          cases shown' with
          | unary symbol' operand' =>
              obtain ⟨rfl, operands⟩ := op.separates.first symbol symbol' (final_rightParen rest)
                (final_rightParen rest') behind
              obtain ⟨rfl, closes⟩ := ih.first operand operand' (final_rightParen rest)
                (final_rightParen rest') operands
              exact ⟨rfl, (List.cons.inj closes).2⟩
  | binary l op r ihl ihr =>
      intro e' s t rest rest' written written' _ _ same
      obtain ⟨sort, parts, parts', shown, shown', behind⟩ := shown_alike written written' same
      cases shown with
      | binary left symbol right =>
          cases shown' with
          | binary left' symbol' right' =>
              obtain ⟨rfl, symbols⟩ := ihl.first left left' (final_rightParen rest)
                (final_rightParen rest') behind
              obtain ⟨rfl, rights⟩ := op.separates.first symbol symbol' (final_rightParen rest)
                (final_rightParen rest') symbols
              obtain ⟨rfl, closes⟩ := ihr.first right right' (final_rightParen rest)
                (final_rightParen rest') rights
              exact ⟨rfl, (List.cons.inj closes).2⟩

/-- A literal that is the whole tree does not start as a node does. -/
theorem Value.debugText_ne_parenthesized (v : Value) (parts : List Bytes) :
    v.debugText ≠ parenthesized parts := by
  intro same
  rcases text_or_worded v with ⟨t, rfl⟩ | word
  · exact absurd (List.cons.inj same).1 (by decide)
  · exact word.append_ne (.inr rfl) [] _ ((List.append_nil _).trans same)

theorem Sound.exists_debugText {leaf : Value → Prop} {e : Expr} (h : Sound leaf e) :
    ∃ text, e.debugText = .ok text := by
  obtain ⟨text, folded⟩ : ∃ text, e.fold Expr.debugging = .ok text := by
    refine h.fold ?_ ?_
    · intro op known operand
      cases op with
      | unknown code => exact absurd known (unary_unknown_not_mem code)
      | _ => exact ⟨_, rfl⟩
    · intro op known left right
      cases op with
      | unknown code => exact absurd known (binary_unknown_not_mem code)
      | _ => exact ⟨_, rfl⟩
  cases e with
  | missing => cases h
  | literal v => exact ⟨_, rfl⟩
  | grouping | unary | binary => exact ⟨text, folded⟩

/-- A literal that is the whole tree stands alone; other trees are nodes. -/
theorem debugText_inv {e : Expr} {text : Bytes} (h : e.debugText = .ok text) :
    (∃ v, e = .literal v ∧ v.debugText = text) ∨
      e.fold Expr.debugging = .ok text ∧ ∃ parts, text = parenthesized parts := by
  have node : e.fold Expr.debugging = .ok text → ∃ parts, text = parenthesized parts := by
    intro folded
    obtain ⟨sort, parts, _, shape⟩ := exists_shown folded
    exact ⟨_, shape⟩
  cases e with
  | missing => cases h
  | literal v => exact .inl ⟨v, rfl, Except.ok.inj h⟩
  | grouping | unary | binary => exact .inr ⟨h, node h⟩

/-- **The debugging form tells the tree.** Trees with known operators and any leaves,
also those that are one literal, have a debugging form, and no two have the same. -/
theorem debugText_tells (e e' : Expr) (sound : Sound (fun _ => True) e)
    (sound' : Sound (fun _ => True) e') :
    (∃ text, e.debugText = .ok text) ∧ (e.debugText = e'.debugText ↔ e = e') := by
  obtain ⟨text, shown⟩ := sound.exists_debugText
  obtain ⟨text', shown'⟩ := sound'.exists_debugText
  refine ⟨⟨text, shown⟩, ?_, ?_⟩
  · intro same
    obtain rfl : text = text' := Except.ok.inj (shown.symm.trans (same.trans shown'))
    rcases debugText_inv shown with ⟨v, rfl, alone⟩ | ⟨folded, parts, shape⟩
    · rcases debugText_inv shown' with ⟨w, rfl, alone'⟩ | ⟨_, parts, shape⟩
      · rw [(v.debugText_separates w text text [] [] alone alone' Closing.nil Closing.nil rfl).1]
      · exact absurd (alone.trans shape) (v.debugText_ne_parenthesized parts)
    · rcases debugText_inv shown' with ⟨w, rfl, alone'⟩ | ⟨folded', _⟩
      · exact absurd (alone'.trans shape) (w.debugText_ne_parenthesized parts)
      · exact (separates_debugging e e' text text [] [] folded folded' Closing.nil Closing.nil
          rfl).1
  · intro same
    rw [same]

/-- A negation of a number and a difference, a text that looks like a part of the form,
and a byte that is no character beside the character of that number: all are told. -/
theorem debugText_tells_sample :
    let one : Expr := .literal (.int 1)
    let e : Expr := .unary .negative (.literal (.text (Bytes.ofString "\") (literal 1.0")))
    let e' : Expr := .binary one .subtract (.literal (.text [0xE9]))
    let f : Expr := .binary one .subtract (.literal (.text (Bytes.ofString "é")))
    Sound (fun _ => True) e ∧ Sound (fun _ => True) e' ∧ Sound (fun _ => True) f ∧
      e.debugText ≠ e'.debugText ∧ e'.debugText ≠ f.debugText := by
  intro one e e' f
  have sound : Sound (fun _ => True) e := ⟨by decide, trivial⟩
  have sound' : Sound (fun _ => True) e' := ⟨by decide, trivial, trivial⟩
  have soundF : Sound (fun _ => True) f := ⟨by decide, trivial, trivial⟩
  refine ⟨sound, sound', soundF, ?_, ?_⟩
  · intro same
    exact absurd ((debugText_tells e e' sound sound').2.mp same) (by decide)
  · intro same
    exact absurd ((debugText_tells e' f sound' soundF).2.mp same) (by decide)

end Reckon
