import Mathlib.Data.List.Forall2
import Reckon.Proofs.NumberTexts
import Reckon.Proofs.Safety

/-!
# Where a printed part ends

Printed forms put parts next to each other, with spaces and parentheses between them.
To read a form back one has to see where a part ends. `Separates writes a` says that
one can: whatever else is written, if it starts a text that what is written for `a`
starts too, then it is `a`, and the text goes on alike.

* Parts with a space before each of them are told one after the other
  (`Separates.first`, `Separates.spaced`).
* Leaves separate: a text ends at its quote, a number before the next space or
  parenthesis, and numbers have one text each (`Told.separates`).
* Constants print as texts do, so a form can tell a tree only up to that
  (`print_quoteWords`).
-/

namespace Reckon

open Grammar Source

/-! ## Runs and spaced parts -/

/-- Runs of one class are cut off alike where both of them end. -/
theorem run_cancel {p : UInt8 → Bool} {s t rest rest' : Bytes} (run : ∀ b ∈ s, p b = true)
    (run' : ∀ b ∈ t, p b = true) (ends : Ends p rest) (ends' : Ends p rest')
    (same : s ++ rest = t ++ rest') : s = t ∧ rest = rest' := by
  have front := congrArg (List.takeWhile p) same
  have back := congrArg (List.dropWhile p) same
  rw [takeWhile_run run ends, takeWhile_run run' ends'] at front
  rw [dropWhile_run run ends, dropWhile_run run' ends'] at back
  exact ⟨front, back⟩

/-- Whether a byte does not end a word. -/
def isInner (b : UInt8) : Bool := b != Ascii.space && b != Ascii.rightParen

theorem Grammar.Closing.ends_inner {rest : Bytes} (closing : Closing rest) :
    Ends isInner rest := by
  intro b head
  rcases closing b head with rfl | rfl <;> rfl

/-- What can stand behind the last of several parts: nothing, or a closing parenthesis. -/
def Final (rest : Bytes) : Prop := ∀ b ∈ rest.head?, b = Ascii.rightParen

theorem final_nil : Final [] := by
  intro b head
  cases head

theorem final_rightParen (rest : Bytes) : Final (Ascii.rightParen :: rest) := by
  intro b head
  exact (Option.some.inj head).symm

/-- Texts with a space before each. -/
def spaced (texts : List Bytes) : Bytes := texts.flatMap fun t => Ascii.space :: t

theorem spaced_cons (t : Bytes) (texts : List Bytes) :
    spaced (t :: texts) = Ascii.space :: (t ++ spaced texts) := rfl

theorem spaced_append (texts texts' : List Bytes) :
    spaced (texts ++ texts') = spaced texts ++ spaced texts' := by
  simp [spaced]

theorem closing_spaced (texts : List Bytes) {rest : Bytes} (final : Final rest) :
    Closing (spaced texts ++ rest) := by
  cases texts with
  | nil =>
      intro b head
      exact .inr (final b head)
  | cons t texts => exact Closing.space _

/-- What is written for `a` tells `a`, and tells where it ends, if a space, a closing
parenthesis or nothing follows. -/
def Separates {α : Type} (writes : α → Bytes → Prop) (a : α) : Prop :=
  ∀ b s t rest rest', writes a s → writes b t → Closing rest → Closing rest' →
    s ++ rest = t ++ rest' → a = b ∧ rest = rest'

/-- The first of several spaced parts is told, and the others go on alike. -/
theorem Separates.first {α : Type} {writes : α → Bytes → Prop} {a b : α} {s t : Bytes}
    {ss ts : List Bytes} {rest rest' : Bytes} (separates : Separates writes a)
    (written : writes a s) (written' : writes b t) (final : Final rest) (final' : Final rest')
    (same : spaced (s :: ss) ++ rest = spaced (t :: ts) ++ rest') :
    a = b ∧ spaced ss ++ rest = spaced ts ++ rest' := by
  simp only [spaced_cons, List.cons_append, List.append_assoc, List.cons.injEq,
    true_and] at same
  exact separates b s t _ _ written written' (closing_spaced ss final) (closing_spaced ts final')
    same

/-- Spaced parts tell how many they are and which. -/
theorem Separates.spaced {α : Type} {writes : α → Bytes → Prop} {as bs : List α}
    {ss ts : List Bytes} {rest rest' : Bytes} (each : ∀ a ∈ as, Separates writes a)
    (written : List.Forall₂ writes as ss) (written' : List.Forall₂ writes bs ts)
    (final : Final rest) (final' : Final rest')
    (same : spaced ss ++ rest = spaced ts ++ rest') : as = bs ∧ rest = rest' := by
  induction written generalizing bs ts with
  | nil =>
      cases written' with
      | nil => exact ⟨rfl, same⟩
      | cons first more =>
          rw [spaced_cons] at same
          exact absurd (final _ (congrArg List.head? same)) (by decide)
  | @cons a s as ss first more ih =>
      cases written' with
      | nil =>
          rw [spaced_cons] at same
          exact absurd (final' _ (congrArg List.head? same.symm)) (by decide)
      | cons first' more' =>
          obtain ⟨rfl, behind⟩ := (each a List.mem_cons_self).first first first' final final' same
          obtain ⟨rfl, rfl⟩ := ih (fun c member => each c (List.mem_cons_of_mem _ member)) more'
            behind
          exact ⟨rfl, rfl⟩

/-! ## Numbers -/

/-- Whether a byte is one of those that numbers have, and operators and constants have not. -/
def Bytes.isTelling (b : UInt8) : Bool := isDigit b || isDoubleMark b

/-- The text of a number: bytes of numbers only, and one that tells it. -/
structure NumberText (text : Bytes) : Prop where
  figures : ∀ b ∈ text, Bytes.isFigure b = true
  telling : text.any Bytes.isTelling = true

theorem NumberText.inner {text : Bytes} (h : NumberText text) : ∀ b ∈ text, isInner b = true := by
  intro b member
  have figure := h.figures b member
  have space : b ≠ Ascii.space := Bytes.ne_of_isFigure figure (by decide)
  have paren : b ≠ Ascii.rightParen := Bytes.ne_of_isFigure figure (by decide)
  simp [isInner, space, paren]

/-- A number starts with a byte of numbers. -/
theorem NumberText.starts {text : Bytes} (h : NumberText text) :
    ∃ b more, text = b :: more ∧ Bytes.isFigure b = true := by
  cases text with
  | nil => cases h.telling
  | cons b more => exact ⟨b, more, rfl, h.figures b List.mem_cons_self⟩

theorem NumberText.append_ne {text : Bytes} (h : NumberText text) {c : UInt8}
    (other : Bytes.isFigure c = false) (rest rest' : Bytes) : text ++ rest ≠ c :: rest' := by
  intro same
  obtain ⟨b, more, rfl, figure⟩ := h.starts
  exact Bytes.ne_of_isFigure figure other (List.cons.inj same).1

/-- A value that is a number. -/
def Numeric : Value → Prop
  | .int _ | .double _ => True
  | .nil | .bool _ | .text _ => False

theorem Numeric.numberText {v : Value} (h : Numeric v) : NumberText v.display := by
  cases v with
  | nil | bool | text => cases h
  | int n =>
      obtain ⟨b, member, digit⟩ := Bytes.exists_digit_of_ofInt n.toInt
      refine ⟨?_, List.any_eq_true.mpr ⟨b, member, by simp [Bytes.isTelling, digit]⟩⟩
      intro c inside
      exact (Bytes.isFigure_of_mem_ofInt inside).1
  | double d =>
      obtain ⟨b, member, mark⟩ := Double.exists_mark_of_double d
      refine ⟨?_, List.any_eq_true.mpr ⟨b, member, by simp [Bytes.isTelling, mark]⟩⟩
      intro c inside
      exact Double.isFigure_of_mem_text inside

/-- Numbers have one text each. -/
theorem Numeric.eq_of_display {v w : Value} (h : Numeric v) (h' : Numeric w)
    (same : v.display = w.display) : v = w := by
  cases v with
  | nil | bool | text => cases h
  | int n =>
      cases w with
      | nil | bool | text => cases h'
      | int m => rw [Int32.toInt_inj.mp (Bytes.ofInt_injective same)]
      | double d => exact absurd same.symm (Value.display_double_ne_int d n)
  | double d =>
      cases w with
      | nil | bool | text => cases h'
      | int n => exact absurd same (Value.display_double_ne_int d n)
      | double d' => rw [Double.text_injective same]

/-- Both kinds of leaves write numbers as they are. -/
theorem Numeric.leaf {v : Value} (h : Numeric v) :
    v.leafText = v.display ∧ v.debugText = v.display := by
  cases v with
  | nil | bool | text => cases h
  | int n => exact ⟨rfl, rfl⟩
  | double d => exact ⟨rfl, rfl⟩

/-! ## Leaves -/

/-- A leaf whose text tells it in the printed forms: a number, or a text without a quote. -/
def Told : Value → Prop
  | .int _ | .double _ => True
  | .text t => Ascii.quote ∉ t
  | .nil | .bool _ => False

/-- A leaf that is no text with a quote. -/
def Unquoted : Value → Prop
  | .text t => Ascii.quote ∉ t
  | _ => True

theorem Unquoted.told {v : Value} (h : Unquoted v) : Told (quoteWord v) := by
  cases v with
  | nil => exact (by decide : Ascii.quote ∉ Bytes.ofString "nil")
  | bool b => exact (by decide : ∀ b, Ascii.quote ∉ truthWord b) b
  | int n => trivial
  | double d => trivial
  | text t => exact h

/-- A told leaf is written in quotes, or as a number. -/
theorem Told.cases {v : Value} (h : Told v) :
    (∃ t, v = .text t ∧ Ascii.quote ∉ t) ∨ Numeric v ∧ NumberText v.leafText := by
  have number : Numeric v → Numeric v ∧ NumberText v.leafText := by
    intro numeric
    exact ⟨numeric, numeric.leaf.1 ▸ numeric.numberText⟩
  cases v with
  | nil | bool => cases h
  | int | double => exact .inr (number trivial)
  | text t => exact .inl ⟨t, rfl, h⟩

/-- Texts in quotes are cut off alike at their quotes. -/
theorem inQuotes_cancel {s t rest rest' : Bytes} (unquoted : Ascii.quote ∉ s)
    (unquoted' : Ascii.quote ∉ t)
    (same : Bytes.inQuotes s ++ rest = Bytes.inQuotes t ++ rest') : s = t ∧ rest = rest' := by
  have ends : ∀ rest, Ends (· != Ascii.quote) (Ascii.quote :: rest) := by
    intro rest b head
    cases head
    rfl
  simp only [Bytes.inQuotes, List.cons_append, List.append_assoc, List.nil_append,
    List.cons.injEq, true_and] at same
  obtain ⟨rfl, behind⟩ := run_cancel (ne_of_not_mem unquoted) (ne_of_not_mem unquoted')
    (ends rest) (ends rest') same
  exact ⟨rfl, (List.cons.inj behind).2⟩

/-- **Leaves separate.** -/
theorem Told.separates {v : Value} : Separates (fun v t => Told v ∧ v.leafText = t) v := by
  rintro w s t rest rest' ⟨told, rfl⟩ ⟨told', rfl⟩ closing closing' same
  rcases told.cases with ⟨t, rfl, unquoted⟩ | ⟨numeric, number⟩
  · rcases told'.cases with ⟨t', rfl, unquoted'⟩ | ⟨_, number'⟩
    · obtain ⟨rfl, rfl⟩ := inQuotes_cancel unquoted unquoted' same
      exact ⟨rfl, rfl⟩
    · exact absurd same.symm (number'.append_ne (by decide) _ _)
  · rcases told'.cases with ⟨t', rfl, unquoted'⟩ | ⟨numeric', number'⟩
    · exact absurd same (number.append_ne (by decide) _ _)
    · obtain ⟨texts, rfl⟩ := run_cancel number.inner number'.inner closing.ends_inner
        closing'.ends_inner same
      rw [numeric.leaf.1, numeric'.leaf.1] at texts
      exact ⟨numeric.eq_of_display numeric' texts, rfl⟩

/-! ## Operators -/

/-- The binary operators with their symbols. -/
def BinaryOp.symbols : List (BinaryOp × Bytes) :=
  table.filterMap fun op => op.spelling?.map fun entry => (op, entry.2)

/-- The unary operators with their symbols. -/
def UnaryOp.symbols : List (UnaryOp × Bytes) :=
  table.filterMap fun op => op.spelling?.map fun entry => (op, entry.2)

theorem BinaryOp.mem_symbols {op : BinaryOp} {text : Bytes} (h : op.symbol = .ok text) :
    (op, text) ∈ symbols := by
  cases op with
  | unknown code => cases h
  | _ =>
      cases h
      decide

theorem UnaryOp.mem_symbols {op : UnaryOp} {text : Bytes} (h : op.symbol = .ok text) :
    (op, text) ∈ symbols := by
  cases op with
  | unknown code => cases h
  | _ =>
      cases h
      decide

theorem BinaryOp.eq_of_symbol {op op' : BinaryOp} {text : Bytes} (h : op.symbol = .ok text)
    (h' : op'.symbol = .ok text) : op = op' := by
  have table : ∀ x ∈ symbols, ∀ y ∈ symbols, x.2 = y.2 → x.1 = y.1 := by decide
  exact table _ (mem_symbols h) _ (mem_symbols h') rfl

theorem UnaryOp.eq_of_symbol {op op' : UnaryOp} {text : Bytes} (h : op.symbol = .ok text)
    (h' : op'.symbol = .ok text) : op = op' := by
  have table : ∀ x ∈ symbols, ∀ y ∈ symbols, x.2 = y.2 → x.1 = y.1 := by decide
  exact table _ (mem_symbols h) _ (mem_symbols h') rfl

theorem BinaryOp.symbol_inner {op : BinaryOp} {text : Bytes} (h : op.symbol = .ok text) :
    ∀ b ∈ text, isInner b = true := by
  have table : ∀ entry ∈ symbols, entry.2.all isInner = true := by decide
  exact List.all_eq_true.mp (table _ (mem_symbols h))

theorem UnaryOp.symbol_inner {op : UnaryOp} {text : Bytes} (h : op.symbol = .ok text) :
    ∀ b ∈ text, isInner b = true := by
  have table : ∀ entry ∈ symbols, entry.2.all isInner = true := by decide
  exact List.all_eq_true.mp (table _ (mem_symbols h))

/-- Operators separate by their symbols. -/
theorem BinaryOp.separates (op : BinaryOp) : Separates (fun op t => op.symbol = .ok t) op := by
  intro op' s t rest rest' known known' closing closing' same
  obtain ⟨rfl, rfl⟩ := run_cancel (symbol_inner known) (symbol_inner known') closing.ends_inner
    closing'.ends_inner same
  exact ⟨eq_of_symbol known known', rfl⟩

theorem UnaryOp.separates (op : UnaryOp) : Separates (fun op t => op.symbol = .ok t) op := by
  intro op' s t rest rest' known known' closing closing' same
  obtain ⟨rfl, rfl⟩ := run_cancel (symbol_inner known) (symbol_inner known') closing.ends_inner
    closing'.ends_inner same
  exact ⟨eq_of_symbol known known', rfl⟩

/-! ## Trees -/

theorem bind_eq_ok {α β : Type} {x : Except Fault α} {f : α → Except Fault β} {b : β}
    (h : (x >>= f) = .ok b) : ∃ a, x = .ok a ∧ f a = .ok b := by
  cases x with
  | error fault => cases h
  | ok a => exact ⟨a, rfl, h⟩

namespace Expr

variable {α : Type} {alg : Algebra α} {a : α}

theorem fold_grouping_inv {e : Expr} (h : (Expr.grouping e).fold alg = .ok a) :
    ∃ b, e.fold alg = .ok b ∧ alg.grouping b = a := by
  obtain ⟨b, inner, made⟩ := bind_eq_ok h
  exact ⟨b, inner, Except.ok.inj made⟩

theorem fold_unary_inv {op : UnaryOp} {e : Expr} (h : (Expr.unary op e).fold alg = .ok a) :
    ∃ b, e.fold alg = .ok b ∧ alg.unary op b = .ok a :=
  bind_eq_ok h

theorem fold_binary_inv {l r : Expr} {op : BinaryOp} (h : (Expr.binary l op r).fold alg = .ok a) :
    ∃ b c, l.fold alg = .ok b ∧ r.fold alg = .ok c ∧ alg.binary b op c = .ok a := by
  obtain ⟨b, left, more⟩ := bind_eq_ok h
  obtain ⟨c, right, made⟩ := bind_eq_ok more
  exact ⟨b, c, left, right, made⟩

/-- A fold that makes the same of constants and their words does not tell them apart. -/
theorem fold_quoteWords (alike : ∀ v, alg.literal (quoteWord v) = alg.literal v) (e : Expr) :
    (quoteWords e).fold alg = e.fold alg := by
  induction e with
  | missing => rfl
  | literal v => simp only [quoteWords, fold, alike]
  | grouping e ih => simp only [quoteWords, fold, ih]
  | unary op e ih => simp only [quoteWords, fold, ih]
  | binary l op r ihl ihr => simp only [quoteWords, fold, ihl, ihr]

end Expr

/-- Constants print as the texts of their words. -/
theorem print_quoteWords (form : Form) (e : Expr) : form.print (quoteWords e) = form.print e := by
  have alike : ∀ v, (quoteWord v).leafText = v.leafText := by
    intro v
    cases v <;> rfl
  cases form <;> exact Expr.fold_quoteWords alike e

/-- With constants turned into texts, every leaf is told by its text. -/
theorem Sound.told {e : Expr} (h : Sound Unquoted e) : Sound Told (quoteWords e) := by
  induction e with
  | missing => cases h
  | literal v => exact Unquoted.told h
  | grouping e ih => exact ih h
  | unary op e ih => exact ⟨h.1, ih h.2⟩
  | binary l op r ihl ihr => exact ⟨h.1, ihl h.2.1, ihr h.2.2⟩

end Reckon
