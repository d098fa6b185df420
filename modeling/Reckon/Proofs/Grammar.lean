import Reckon.Expr.Parser

/-!
# The expression grammar

Expressions are written in eight levels. Six of them join operands with binary
operators, from `or` down to products; a chain of operands leans to the left.
Below them stand the unary operators, and below these the primaries: constants,
literal tokens and anything in parentheses.

`Derives level ts e` says that the tokens `ts` spell the tree `e` at a level,
and `Sentence` that they do so at the loosest one. The relation speaks of token
kinds and payloads only; nothing in it depends on how tokens are read.
-/

namespace Reckon.Grammar

/-! ## Levels -/

/-- The levels of the grammar, the loosest first. -/
inductive Level
  | or
  | and
  | equality
  | comparison
  | term
  | factor
  | unary
  | primary
  deriving DecidableEq, Repr

namespace Level

/-- The level just below a level, from which it takes its operands. -/
def next? : Level → Option Level
  | or => some and
  | and => some equality
  | equality => some comparison
  | comparison => some term
  | term => some factor
  | factor => some unary
  | unary => some primary
  | primary => none

/-- The operators that join operands at a level, with the kinds that spell them. -/
def operators : Level → List (Kind × BinaryOp)
  | or => [(.kwOr, .or)]
  | and => [(.kwAnd, .and)]
  | equality => [(.bangEqual, .notEq), (.equalEqual, .eq)]
  | comparison =>
    [(.greater, .greater), (.greaterEqual, .greaterEq), (.less, .less), (.lessEqual, .lessEq)]
  | term => [(.minus, .subtract), (.plus, .add)]
  | factor => [(.slash, .divide), (.star, .multiply)]
  | unary | primary => []

/-- The place of a level, counted from the loosest. -/
def rank : Level → Nat
  | or => 1
  | and => 2
  | equality => 3
  | comparison => 4
  | term => 5
  | factor => 6
  | unary => 7
  | primary => 8

theorem rank_injective {a b : Level} (h : a.rank = b.rank) : a = b := by
  cases a <;> cases b <;> first | rfl | exact absurd h (by decide)

theorem rank_next {level next : Level} (h : level.next? = some next) :
    next.rank = level.rank + 1 := by
  cases level <;> simp only [next?, Option.some.injEq, reduceCtorEq] at h <;> subst h <;> rfl

theorem exists_next {level : Level} (h : level.rank < 8) : ∃ next, level.next? = some next := by
  cases level <;> first | exact ⟨_, rfl⟩ | exact absurd h (by decide)

end Level

/-- The kinds that spell a binary operator. -/
def joints : List Kind :=
  [.kwOr, .kwAnd, .bangEqual, .equalEqual, .greater, .greaterEqual, .less, .lessEqual, .minus,
    .plus, .slash, .star]

/-- The unary operators, with the kinds that spell them. -/
def unaryOperators : List (Kind × UnaryOp) := [(.bang, .not), (.minus, .negative)]

/-- The constants, with the kinds that spell them. -/
def constants : List (Kind × Value) :=
  [(.kwTrue, .bool true), (.kwFalse, .bool false), (.kwNil, .nil)]

/-- `Denotes payload v`: a literal token with this payload stands for `v`. An
integer of 64 bits stands for the integer of 32 bits with its value, if there is
one. -/
inductive Denotes : Payload → Value → Prop
  | text (s : Bytes) : Denotes (.text s) (.text s)
  | double (d : Double) : Denotes (.double d) (.double d)
  | short (n : Int32) : Denotes (.short n) (.int n)
  | integer {n : Int64} {m : Int32} (same : n.toInt = m.toInt) : Denotes (.integer n) (.int m)

/-! ## Derivations -/

/-- `Derives level ts e`: the tokens `ts` spell the tree `e` at a level. -/
inductive Derives : Level → List Token → Expr → Prop
  | tighter {level next : Level} {ts : List Token} {e : Expr} :
      level.next? = some next → Derives next ts e → Derives level ts e
  | binary {level next : Level} {left right : List Token} {l r : Expr} {t : Token}
      {op : BinaryOp} :
      level.next? = some next → (t.kind, op) ∈ level.operators →
      Derives level left l → Derives next right r →
      Derives level (left ++ t :: right) (.binary l op r)
  | unary {ts : List Token} {e : Expr} {t : Token} {op : UnaryOp} :
      (t.kind, op) ∈ unaryOperators → Derives .unary ts e →
      Derives .unary (t :: ts) (.unary op e)
  | constant {t : Token} {v : Value} :
      (t.kind, v) ∈ constants → Derives .primary [t] (.literal v)
  | payload {t : Token} {v : Value} :
      t.kind = .number ∨ t.kind = .string → Denotes t.payload v →
      Derives .primary [t] (.literal v)
  | grouping {ts : List Token} {e : Expr} {opening closing : Token} :
      opening.kind = .leftParen → closing.kind = .rightParen → Derives .or ts e →
      Derives .primary (opening :: ts ++ [closing]) (.grouping e)

/-- A sentence: tokens that spell a tree at the loosest level. -/
def Sentence (ts : List Token) (e : Expr) : Prop := Derives .or ts e

/-- What a level spells, every looser level spells too. -/
theorem Derives.loosen {level target : Level} {ts : List Token} {e : Expr}
    (h : Derives level ts e) (le : target.rank ≤ level.rank) : Derives target ts e := by
  obtain ⟨gap, hgap⟩ := Nat.exists_eq_add_of_le le
  induction gap generalizing target with
  | zero =>
      have same : level = target := Level.rank_injective hgap
      rw [← same]
      exact h
  | succ n ih =>
      have low : target.rank < 8 := by
        have : level.rank ≤ 8 := by cases level <;> decide
        omega
      obtain ⟨next, hnext⟩ := Level.exists_next low
      have hrank := Level.rank_next hnext
      exact .tighter hnext (ih (by omega) (by omega))

/-- A derivation takes at least one token. -/
theorem Derives.ne_nil {level : Level} {ts : List Token} {e : Expr}
    (h : Derives level ts e) : ts ≠ [] := by
  induction h with
  | tighter _ _ ih => exact ih
  | binary => simp
  | unary => simp
  | constant => simp
  | payload => simp
  | grouping => simp

/-! ## The tables of the reader -/

/-- The operators of a level are those whose kind and tightness say so. -/
theorem mem_operators_iff {level : Level} {kind : Kind} {op : BinaryOp} :
    (kind, op) ∈ level.operators ↔ BinaryOp.ofKind? kind = some op ∧ op.level = level.rank := by
  constructor
  · intro h
    have table : ∀ entry ∈ level.operators,
        BinaryOp.ofKind? entry.1 = some entry.2 ∧ entry.2.level = level.rank := by
      cases level <;> decide
    exact table (kind, op) h
  · rintro ⟨hkind, hlevel⟩
    cases kind <;> simp only [BinaryOp.ofKind?, Option.some.injEq, reduceCtorEq] at hkind
    all_goals
      subst hkind
      cases level <;> first | exact absurd hlevel (by decide) | decide

/-- Every binary operator that a kind spells has a level. -/
theorem exists_level {kind : Kind} {op : BinaryOp} (h : BinaryOp.ofKind? kind = some op) :
    ∃ level : Level, (kind, op) ∈ level.operators ∧ level.rank < 7 := by
  cases kind <;> simp only [BinaryOp.ofKind?, Option.some.injEq, reduceCtorEq] at h
  all_goals subst h
  all_goals
    first
    | exact ⟨.or, by decide, by decide⟩
    | exact ⟨.and, by decide, by decide⟩
    | exact ⟨.equality, by decide, by decide⟩
    | exact ⟨.comparison, by decide, by decide⟩
    | exact ⟨.term, by decide, by decide⟩
    | exact ⟨.factor, by decide, by decide⟩

theorem mem_joints_iff {kind : Kind} : kind ∈ joints ↔ BinaryOp.ofKind? kind ≠ none := by
  cases kind <;> simp [joints, BinaryOp.ofKind?]

/-- The level at which a kind joins operands is that of the operator it spells. -/
theorem joiningLevel?_eq (kind : Kind) :
    Parser.joiningLevel? kind = (BinaryOp.ofKind? kind).map BinaryOp.level := by
  cases kind <;> rfl

theorem contains_markings (kind : Kind) :
    Parser.markings.contains kind = (UnaryOp.ofKind? kind).isSome := by
  cases kind <;> rfl

theorem mem_unaryOperators_iff {kind : Kind} {op : UnaryOp} :
    (kind, op) ∈ unaryOperators ↔ UnaryOp.ofKind? kind = some op := by
  constructor
  · intro h
    have table : ∀ entry ∈ unaryOperators, UnaryOp.ofKind? entry.1 = some entry.2 := by decide
    exact table (kind, op) h
  · intro h
    cases kind <;> simp only [UnaryOp.ofKind?, Option.some.injEq, reduceCtorEq] at h
    all_goals subst h; decide

/-- An integer in the range of 32 bits keeps its value when it is narrowed. -/
theorem toInt_toInt32_of_inRange {n : Int64} (low : -2147483648 ≤ n.toInt)
    (high : n.toInt ≤ 2147483647) : n.toInt32.toInt = n.toInt := by
  rw [Int64.toInt_toInt32]
  exact Int.bmod_eq_of_le (by omega) (by omega)

/-- A literal token has the value that its payload stands for. -/
theorem literal_eq_ok_iff {t : Token} {v : Value} :
    Parser.literal t = .ok v ↔ Denotes t.payload v := by
  unfold Parser.literal
  cases hp : t.payload with
  | absent => constructor <;> intro h <;> cases h
  | long n => constructor <;> intro h <;> cases h
  | truth b => constructor <;> intro h <;> cases h
  | double d =>
      constructor <;> intro h <;> cases h
      · exact .double d
      · rfl
  | short n =>
      constructor <;> intro h <;> cases h
      · exact .short n
      · rfl
  | text s =>
      constructor <;> intro h <;> cases h
      · exact .text s
      · rfl
  | integer n =>
      simp only
      constructor
      · intro h
        split at h
        · next inRange =>
          cases h
          exact .integer (toInt_toInt32_of_inRange inRange.1 inRange.2).symm
        · cases h
      · intro h
        cases h with
        | integer same =>
            rename_i m
            have low := Int32.le_toInt m
            have high := Int32.toInt_lt m
            have inRange : -2147483648 ≤ n.toInt ∧ n.toInt ≤ 2147483647 := by omega
            rw [if_pos inRange]
            have narrow := toInt_toInt32_of_inRange inRange.1 inRange.2
            rw [Int32.toInt_inj.mp (narrow.trans same)]

/-! ## Operators that are taken -/

section Operators

open Parser

variable {frames : List Frame} {t : Token} {e : Expr}

theorem takeOperand_of_ofKind? {op : UnaryOp} (spelled : UnaryOp.ofKind? t.kind = some op) :
    takeOperand frames t = some (.ok (.wanting (.unary op :: frames))) := by
  have marks : markings.contains t.kind = true := by rw [contains_markings, spelled]; rfl
  rw [takeOperand, if_pos marks, takeMarking, spelled]

theorem takeOperand_of_unspelled (unspelled : UnaryOp.ofKind? t.kind = none) :
    takeOperand frames t = takePrimary frames t := by
  have other : ¬ markings.contains t.kind = true := by rw [contains_markings, unspelled]; decide
  rw [takeOperand, if_neg other]

theorem takeOperator_of_ofKind? {op : BinaryOp} (spelled : BinaryOp.ofKind? t.kind = some op) :
    takeOperator frames e t =
      some (.ok (.wanting (.binary (collapse op.level frames e).2 op ::
        (collapse op.level frames e).1))) := by
  rw [takeOperator, joiningLevel?_eq, spelled, Option.map_some]
  dsimp only
  rw [takeJoining, spelled]

theorem takeOperator_of_unspelled (unspelled : BinaryOp.ofKind? t.kind = none) :
    takeOperator frames e t =
      if t.kind = .rightParen then (takeClosing frames e).map .ok else none := by
  rw [takeOperator, joiningLevel?_eq, unspelled, Option.map_none]

end Operators

end Reckon.Grammar
