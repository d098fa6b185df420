import Reckon.Proofs.RoundTrip
import Reckon.Session

/-!
# Source text leads to no fault

A fault is a breach of contract, and each stage keeps the contract of the next:

* pieces are slices of the source, and the text of a number token is digits with
  an optional fraction (`slice_of_mem_place`, `number_of_mem_tokens`);
* every literal token carries a double or a text, and every kind that the reader
  takes for an operator spells one (`take_ne_noOperator`), so reading does not fault
  and gives trees without missing parts, with operators of the tables, and without
  integers (`ReadFrom.sound`);
* on such trees evaluation and printing do not fault (`Sound.eval_ne_fault`,
  `Sound.print`), and no operator makes an integer of values that are none
  (`Sound.eval_nonInt`).

`run_safe` puts the stages together for whole runs.
-/

namespace Reckon

open Grammar Reckon.Parser Source

/-! ## Sound trees -/

/-- A tree with all its parts and operators of the tables only, whose leaves
satisfy `leaf`. -/
def Sound (leaf : Value → Prop) : Expr → Prop
  | .missing => False
  | .literal v => leaf v
  | .grouping e => Sound leaf e
  | .unary op e => op ∈ UnaryOp.table ∧ Sound leaf e
  | .binary l op r => op ∈ BinaryOp.table ∧ Sound leaf l ∧ Sound leaf r

/-- A value that is no integer. -/
def NonInt (v : Value) : Prop := ∀ n, v ≠ .int n

theorem Grammar.Canonical.sound {leaf leaf' : Value → Prop} {e : Expr}
    (weaken : ∀ v, leaf v → leaf' v) (h : Canonical leaf e) : Sound leaf' e := by
  induction e with
  | missing => exact h
  | literal v => exact weaken v h
  | grouping e ih => exact ih h
  | unary op e ih => exact ⟨h.1, ih h.2.1⟩
  | binary l op r ihl ihr => exact ⟨h.1, ihl h.2.1, ihr h.2.2.1⟩

/-! ## Operators of the tables -/

theorem UnaryOp.exists_token {op : UnaryOp} (known : op ∈ UnaryOp.table) :
    ∃ t, op.token = .ok t := by
  cases op with
  | unknown code => exact absurd known (unary_unknown_not_mem code)
  | _ => exact ⟨_, rfl⟩

theorem BinaryOp.exists_token {op : BinaryOp} (known : op ∈ BinaryOp.table) :
    ∃ t, op.token = .ok t := by
  cases op with
  | unknown code => exact absurd known (binary_unknown_not_mem code)
  | _ => exact ⟨_, rfl⟩

/-- With a token to charge, a misfit is an error of the run and no fault. -/
theorem charge_ne_fault {token : Except Fault Token} (h : ∃ t, token = .ok t)
    (result : Except Misfit Value) (fault : Fault) :
    charge token result ≠ .error (.fault fault) := by
  obtain ⟨t, rfl⟩ := h
  cases result <;> simp [charge]

theorem UnaryOp.apply_ne_fault {op : UnaryOp} (known : op ∈ UnaryOp.table) (v : Value)
    (fault : Fault) : op.apply v ≠ .error (.fault fault) := by
  have token := UnaryOp.exists_token known
  cases op with
  | negative => exact charge_ne_fault token _ fault
  | not => simp [UnaryOp.apply]
  | unknown code => exact absurd known (unary_unknown_not_mem code)

theorem BinaryOp.apply_ne_fault {op : BinaryOp} (known : op ∈ BinaryOp.table) (l r : Value)
    (fault : Fault) : op.apply l r ≠ .error (.fault fault) := by
  have token := BinaryOp.exists_token known
  cases op with
  | eq | notEq | or | and => simp [BinaryOp.apply]
  | unknown code => exact absurd known (binary_unknown_not_mem code)
  | _ => exact charge_ne_fault token _ fault

/-- Evaluation of a tree with all its parts and known operators does not fault. -/
theorem Sound.eval_ne_fault {leaf : Value → Prop} {e : Expr} (h : Sound leaf e) (fault : Fault) :
    e.eval ≠ .error (.fault fault) := by
  induction e with
  | missing => cases h
  | literal v => simp [Expr.eval]
  | grouping e ih => exact ih h
  | unary op e ih =>
      have operand := ih h.2
      rw [Expr.eval]
      cases outcome : e.eval with
      | ok v => exact UnaryOp.apply_ne_fault h.1 v fault
      | error failure =>
          rw [outcome] at operand
          exact operand
  | binary l op r ihl ihr =>
      have left := ihl h.2.1
      have right := ihr h.2.2
      rw [Expr.eval]
      cases outcome : l.eval with
      | error failure =>
          rw [outcome] at left
          exact left
      | ok v =>
          dsimp only
          split
          · -- the left value decides, so the right operand is not looked at
            simp
          · cases outcome' : r.eval with
            | ok w => exact BinaryOp.apply_ne_fault h.1 v w fault
            | error failure =>
                rw [outcome'] at right
                exact right

/-- A fold succeeds on a sound tree if its algebra has an answer for every operator
of the tables. -/
theorem Sound.fold {α : Type} {alg : Algebra α} {leaf : Value → Prop} {e : Expr}
    (unary : ∀ op ∈ UnaryOp.table, ∀ a, ∃ b, alg.unary op a = .ok b)
    (binary : ∀ op ∈ BinaryOp.table, ∀ a b, ∃ c, alg.binary a op b = .ok c)
    (h : Sound leaf e) : ∃ a, e.fold alg = .ok a := by
  induction e with
  | missing => cases h
  | literal v => exact ⟨_, rfl⟩
  | grouping e ih =>
      obtain ⟨a, folded⟩ := ih h
      exact ⟨alg.grouping a, by rw [Expr.fold, folded]; rfl⟩
  | unary op e ih =>
      obtain ⟨a, folded⟩ := ih h.2
      obtain ⟨b, applied⟩ := unary op h.1 a
      exact ⟨b, by rw [Expr.fold, folded]; exact applied⟩
  | binary l op r ihl ihr =>
      obtain ⟨a, folded⟩ := ihl h.2.1
      obtain ⟨b, folded'⟩ := ihr h.2.2
      obtain ⟨c, applied⟩ := binary op h.1 a b
      exact ⟨c, by rw [Expr.fold, folded, folded']; exact applied⟩

/-- Every form can print a sound tree. -/
theorem Sound.print {leaf : Value → Prop} {e : Expr} (h : Sound leaf e) (form : Form) :
    ∃ text, form.print e = .ok text := by
  refine h.fold (fun op known a => ?_) (fun op known a b => ?_)
  · cases op with
    | unknown code => exact absurd known (unary_unknown_not_mem code)
    | _ => cases form <;> exact ⟨_, rfl⟩
  · cases op with
    | unknown code => exact absurd known (binary_unknown_not_mem code)
    | _ => cases form <;> exact ⟨_, rfl⟩

/-! ## No integers -/

theorem nonInt_bool (b : Bool) : NonInt (.bool b) := by
  intro n same
  cases same

theorem nonInt_double (d : Double) : NonInt (.double d) := by
  intro n same
  cases same

theorem nonInt_text (t : Bytes) : NonInt (.text t) := by
  intro n same
  cases same

/-- What an operator charges is what it computes. -/
theorem charge_eq_ok {token : Except Fault Token} {result : Except Misfit Value} {v : Value}
    (h : charge token result = .ok v) : result = .ok v := by
  cases result with
  | ok w => exact congrArg Except.ok (Except.ok.inj h)
  | error misfit => cases token <;> cases h

theorem Value.compare_nonInt {rel : Double → Double → Bool} {l r v : Value}
    (h : Value.compare rel l r = .ok v) : NonInt v := by
  unfold Value.compare at h
  split at h
  · cases h
    exact nonInt_bool _
  · cases h

theorem Value.arithmetic_nonInt {onInts : Int32 → Int32 → Int32}
    {onDoubles : Double → Double → Double} {l r v : Value} (left : NonInt l)
    (h : Value.arithmetic onInts onDoubles l r = .ok v) : NonInt v := by
  unfold Value.arithmetic at h
  split at h
  · next a b => exact absurd rfl (left a)
  · split at h
    · cases h
      exact nonInt_double _
    · cases h

theorem Value.plus_nonInt {l r v : Value} (left : NonInt l) (h : Value.plus l r = .ok v) :
    NonInt v := by
  unfold Value.plus at h
  split at h
  · next a b => exact absurd rfl (left a)
  · split at h
    · cases h
      exact nonInt_text _
    · split at h
      · cases h
        exact nonInt_double _
      · cases h

theorem Value.quotient_nonInt {l r v : Value} (left : NonInt l)
    (h : Value.quotient l r = .ok v) : NonInt v := by
  unfold Value.quotient at h
  split at h
  · cases h
  · exact Value.arithmetic_nonInt left h

theorem UnaryOp.apply_nonInt {op : UnaryOp} {v w : Value} (operand : NonInt v)
    (h : op.apply v = .ok w) : NonInt w := by
  cases op with
  | negative =>
      rw [UnaryOp.apply] at h
      have negated := charge_eq_ok h
      cases v with
      | int n => exact absurd rfl (operand n)
      | double d =>
          cases negated
          exact nonInt_double _
      | _ => cases negated
  | not =>
      cases h
      exact nonInt_bool _
  | unknown code => cases h

/-- Operators make no integer of values that are none. -/
theorem BinaryOp.apply_nonInt {op : BinaryOp} {l r v : Value} (left : NonInt l)
    (right : NonInt r) (h : op.apply l r = .ok v) : NonInt v := by
  cases op with
  | eq | notEq =>
      cases h
      exact nonInt_bool _
  | less | greater | lessEq | greaterEq =>
      rw [BinaryOp.apply] at h
      exact Value.compare_nonInt (charge_eq_ok h)
  | add =>
      rw [BinaryOp.apply] at h
      exact Value.plus_nonInt left (charge_eq_ok h)
  | subtract | multiply =>
      rw [BinaryOp.apply] at h
      exact Value.arithmetic_nonInt left (charge_eq_ok h)
  | divide =>
      rw [BinaryOp.apply] at h
      exact Value.quotient_nonInt left (charge_eq_ok h)
  | or | and =>
      cases h
      exact right
  | unknown code => cases h

theorem Sound.eval_nonInt {e : Expr} {v : Value} (h : Sound NonInt e) (outcome : e.eval = .ok v) :
    NonInt v := by
  induction e generalizing v with
  | missing => cases h
  | literal w =>
      cases outcome
      exact h
  | grouping e ih => exact ih h outcome
  | unary op e ih =>
      rw [Expr.eval] at outcome
      cases operand : e.eval with
      | error failure =>
          rw [operand] at outcome
          cases outcome
      | ok w =>
          rw [operand] at outcome
          exact UnaryOp.apply_nonInt (ih h.2 operand) outcome
  | binary l op r ihl ihr =>
      rw [Expr.eval] at outcome
      cases left : l.eval with
      | error failure =>
          rw [left] at outcome
          cases outcome
      | ok w =>
          rw [left] at outcome
          dsimp only at outcome
          split at outcome
          · -- the left value decides and is the result
            cases outcome
            exact ihl h.2.1 left
          · cases right : r.eval with
            | error failure =>
                rw [right] at outcome
                cases outcome
            | ok x =>
                rw [right] at outcome
                exact BinaryOp.apply_nonInt (ihl h.2.1 left) (ihr h.2.2 right) outcome

/-! ## The stages before the trees -/

/-- A placed piece lies inside the source, and its bytes are those at its place. -/
theorem slice_of_mem_place {source : Bytes} {start line : Nat} {ps : List Piece} {placed : Placed}
    (split : source.drop start = ps.flatMap Piece.bytes) (bound : start ≤ source.length)
    (member : placed ∈ place start line ps) :
    placed.stop ≤ source.length ∧ source.extract placed.start placed.stop = placed.piece.bytes := by
  induction ps generalizing start line with
  | nil => cases member
  | cons p rest ih =>
      rw [List.flatMap_cons] at split
      obtain ⟨_, within, slice, behind⟩ := positions_of_drop split bound
      -- the next piece starts where this one stops
      rcases List.mem_cons.mp member with rfl | later
      · exact ⟨within, slice⟩
      · exact ih behind within later

/-- The text of a number token is digits, or digits, a point and digits, and it
carries their double. -/
theorem number_of_mem_tokens {source : Bytes} {t : Token} (member : t ∈ tokens source)
    (kind : t.kind = .number) :
    ∃ whole fraction, (Piece.numeral whole fraction).Proper ∧
      t.lexeme = (Piece.numeral whole fraction).bytes ∧
      t.payload = .double ((Decimal.ofNumeral whole (fraction.getD [])).toDouble false) := by
  obtain ⟨p, _, proper, lexeme, literal⟩ := literal_of_mem_tokens member (.inl kind)
  rw [kind] at literal
  generalize t.payload = payload at literal
  cases literal with
  | number whole fraction => exact ⟨whole, fraction, proper, lexeme, rfl⟩

theorem readable_tokens (source : Bytes) : Readable (tokens source) := by
  intro t member kind
  obtain ⟨p, _, _, _, literal⟩ := literal_of_mem_tokens member kind
  generalize t.kind = k, t.payload = payload at literal
  cases literal with
  | number whole fraction => exact ⟨_, .double _⟩
  | text body => exact ⟨_, .text body⟩

/-- A kind that joins operands spells an operator of the table, at the level at which it
joins them. -/
theorem exists_binary_of_joiningLevel? {kind : Kind} {level : Nat}
    (joins : joiningLevel? kind = some level) :
    ∃ op ∈ BinaryOp.table, BinaryOp.ofKind? kind = some op ∧ op.level = level := by
  rw [joiningLevel?_eq] at joins
  obtain ⟨op, spelled, tight⟩ := Option.map_eq_some_iff.mp joins
  obtain ⟨symbol, spelling⟩ := (BinaryOp.ofKind?_eq_some_iff kind op).mp spelled
  refine ⟨op, ?_, spelled, tight⟩
  cases op with
  | unknown code => cases spelling
  | _ => decide

/-- A kind that stands before an operand spells an operator of the table. -/
theorem exists_unary_of_mem_markings {kind : Kind} (marks : kind ∈ markings) :
    ∃ op ∈ UnaryOp.table, UnaryOp.ofKind? kind = some op := by
  have table : ∀ kind ∈ markings, ∃ op ∈ UnaryOp.table, UnaryOp.ofKind? kind = some op := by
    decide
  exact table kind marks

theorem literal_fault_cases {t : Token} {fault : Fault} (h : literal t = .error fault) :
    (∃ n, fault = .wideInteger n t) ∨ fault = .payload t := by
  unfold literal at h
  cases payload : t.payload with
  | integer n =>
      rw [payload] at h
      dsimp only at h
      split at h
      · cases h
      · cases h
        exact .inl ⟨n, rfl⟩
  | text | short | double =>
      rw [payload] at h
      cases h
  | absent | long | truth =>
      rw [payload] at h
      cases h
      exact .inr rfl

/-- No step of the reader looks for an operator that its table does not have. -/
theorem take_ne_noOperator (s : State) (t other : Token) :
    take s t ≠ some (.error (.noBinary other)) ∧ take s t ≠ some (.error (.noUnary other)) := by
  have cases_of_fault : ∀ {fault}, take s t = some (.error fault) →
      (∃ n, fault = .wideInteger n t) ∨ fault = .payload t :=
    fun step => literal_fault_cases (take_eq_fault_iff.mp step).2.2
  constructor
  · intro step
    rcases cases_of_fault step with ⟨_, same⟩ | same <;> cases same
  · intro step
    rcases cases_of_fault step with ⟨_, same⟩ | same <;> cases same

theorem rest_isSuffix_readAll (tokens : List Token) : (readAll tokens).rest <:+ tokens := by
  have unit_suffix := rest_isSuffix_readUnit
  fun_induction readAll tokens with
  | case1 tokens ended => exact List.suffix_refl _
  | case2 tokens more e rest unit later ih =>
      have suffix := unit_suffix tokens
      rw [unit] at suffix
      exact ih.trans suffix
  | case3 tokens more error rest unit later ih =>
      have suffix := unit_suffix tokens
      rw [unit] at suffix
      exact (ih.trans (resume_isSuffix rest)).trans suffix
  | case4 tokens more fault rest unit =>
      have suffix := unit_suffix tokens
      rw [unit] at suffix
      exact suffix

theorem Grammar.Scanned.nonInt {source : Bytes} {v : Value} (h : Scanned source v) : NonInt v := by
  rintro n rfl
  rcases h with printable | ⟨infinite, _⟩
  · exact printable
  · cases infinite

theorem Grammar.ReadFrom.sound {source : Bytes} {e : Expr} (h : ReadFrom source e) :
    Sound NonInt e :=
  h.canonical.sound fun _ scanned => scanned.nonInt

/-- What every stage leaves to the next one. -/
structure StagesSafe (source : Bytes) : Prop where
  /-- Pieces are slices of the source. -/
  slices : ∀ placed ∈ place 0 1 (pieces source), placed.stop ≤ source.length ∧
    source.extract placed.start placed.stop = placed.piece.bytes
  /-- The texts of numbers are digits with an optional fraction. -/
  numbers : ∀ t ∈ tokens source, t.kind = .number →
    ∃ whole fraction, (Piece.numeral whole fraction).Proper ∧
      t.lexeme = (Piece.numeral whole fraction).bytes ∧
      t.payload = .double ((Decimal.ofNumeral whole (fraction.getD [])).toDouble false)
  /-- Every literal carries what an expression can hold. -/
  readable : Readable (tokens source)
  /-- Every kind that joins operands spells an operator, which joins at the same level. -/
  joinings : ∀ kind level, joiningLevel? kind = some level →
    ∃ op ∈ BinaryOp.table, BinaryOp.ofKind? kind = some op ∧ op.level = level
  /-- Every kind that stands before an operand spells an operator. -/
  markings : ∀ kind ∈ markings, ∃ op ∈ UnaryOp.table, UnaryOp.ofKind? kind = some op
  /-- No operator is looked for in vain. -/
  lookups : ∀ s t other, take s t ≠ some (.error (.noBinary other)) ∧
    take s t ≠ some (.error (.noUnary other))
  /-- Reading stays among the tokens. -/
  within : (readAll (tokens source)).rest <:+ tokens source
  /-- Reading meets no fault. -/
  unfaulted : (readAll (tokens source)).fault? = none
  /-- Trees have all their parts, known operators and no integers. -/
  sound : ∀ e ∈ (readAll (tokens source)).exprs, Sound NonInt e

theorem stagesSafe (source : Bytes) : StagesSafe source := by
  have readable := readable_tokens source
  obtain ⟨_, bySegments⟩ := readAll_bySegments rfl (Nat.zero_le _) readable
  have split : source.drop 0 = (pieces source).flatMap Piece.bytes :=
    (flatMap_bytes_pieces source).symm
  exact ⟨fun placed => slice_of_mem_place split (Nat.zero_le _),
    fun t => number_of_mem_tokens, readable, fun _ _ => exists_binary_of_joiningLevel?,
    fun _ => exists_unary_of_mem_markings, take_ne_noOperator, rest_isSuffix_readAll _,
    bySegments.fault,
    fun e member => ReadFrom.sound (.inr member)⟩

/-! ## Runs -/

/-- A run that ends without a fault and computes no integer. -/
structure Run.Safe (run : Run) : Prop where
  unfaulted : ∀ fault, run.ending ≠ .fault fault
  nonInt : ∀ values ∈ run.values?, ∀ v ∈ values, NonInt v

/-- Ends without a fault and without values are safe. -/
theorem Run.safe_of_no_values {run : Run} (unfaulted : ∀ fault, run.ending ≠ .fault fault)
    (none : ∀ values ∈ run.values?, values = []) : run.Safe := by
  refine ⟨unfaulted, fun values given v member => ?_⟩
  rw [none values given] at member
  cases member

theorem Run.safe_evaluating {exprs : List Expr} (sound : ∀ e ∈ exprs, Sound NonInt e) :
    (Run.evaluating exprs).Safe := by
  induction exprs with
  | nil => exact Run.safe_of_no_values (by simp [Run.evaluating]) (by simp [Run.evaluating])
  | cons e rest ih =>
      have here := sound e List.mem_cons_self
      obtain ⟨unfaulted, nonInt⟩ := ih fun f member => sound f (List.mem_cons_of_mem e member)
      unfold Run.evaluating
      cases outcome : e.eval with
      | error failure =>
          cases failure with
          | runtime error => exact Run.safe_of_no_values (by simp) (by simp)
          | fault fault => exact absurd outcome (here.eval_ne_fault fault)
      | ok v =>
          refine ⟨unfaulted, fun values equal w member => ?_⟩
          obtain ⟨later, some_later, rfl⟩ := Option.map_eq_some_iff.mp equal
          rcases List.mem_cons.mp member with rfl | member
          · exact here.eval_nonInt outcome
          · exact nonInt later some_later w member

theorem Run.safe_printing {form : Form} {exprs : List Expr} {leaf : Value → Prop}
    (sound : ∀ e ∈ exprs, Sound leaf e) : (Run.printing (.print form) exprs).Safe := by
  induction exprs with
  | nil => exact Run.safe_of_no_values (by simp [Run.printing]) (by simp [Run.printing])
  | cons e rest ih =>
      obtain ⟨text, printed⟩ := (sound e List.mem_cons_self).print form
      have later := ih fun f member => sound f (List.mem_cons_of_mem e member)
      have rendered : (Mode.print form).render e = .ok text := printed
      rw [Run.printing, rendered]
      exact ⟨later.unfaulted, later.nonInt⟩

theorem Mode.ofCode_cases {code : Int} (low : 0 ≤ code) (high : code ≤ 3) :
    Mode.ofCode code = .evaluate ∨ ∃ form, Mode.ofCode code = .print form := by
  have cases : code = 0 ∨ code = 1 ∨ code = 2 ∨ code = 3 := by omega
  rcases cases with rfl | rfl | rfl | rfl
  · exact .inl rfl
  · exact .inr ⟨_, rfl⟩
  · exact .inr ⟨_, rfl⟩
  · exact .inr ⟨_, rfl⟩

/-- **Runs are safe.** Whatever the source, the mode and the problems reported
before, a run ends without a fault, every stage keeps to what the next one
expects, and no value of the run is an integer. -/
theorem run_safe {ρ : Type} [Reporter ρ] (code : Int) (low : 0 ≤ code) (high : code ≤ 3)
    (reporter : ρ) (source : Bytes) :
    StagesSafe source ∧ (Session.run ⟨Mode.ofCode code, reporter⟩ source).2.Safe := by
  have stages := stagesSafe source
  refine ⟨stages, ?_⟩
  simp only [Session.run, stages.unfaulted]
  split
  · -- a problem was reported, now or before, and nothing is run
    exact Run.safe_of_no_values (by simp) (by simp)
  · rcases Mode.ofCode_cases low high with mode | ⟨form, mode⟩
    · rw [mode]
      exact Run.safe_evaluating stages.sound
    · rw [mode]
      exact Run.safe_printing stages.sound

/-- A source that is no UTF-8 and is evaluated to the end. -/
theorem run_safe_sample :
    let source : Bytes := Bytes.ofString "-1 / 0.5; \"" ++ [0xFF, 0xC3] ++ Bytes.ofString "\" + 2"
    let reporter : Recorder := {}
    (0 : Int) ≤ 0 ∧ (0 : Int) ≤ 3 ∧ StagesSafe source ∧
      (Session.run ⟨Mode.ofCode 0, reporter⟩ source).2.Safe :=
  ⟨by decide, by decide, run_safe 0 (by decide) (by decide) _ _⟩

end Reckon
