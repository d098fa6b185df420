import Reckon.Proofs.Failing

/-!
# Flawed trees

A tree made by hand can have flaws: a node where nothing stands, or one whose operator is
outside the tables (`Expr.flaw?`). A fold comes to the nodes in the order of
`Expr.places`, and fails at the first flaw (`Expr.firstFlaw?`), whatever it makes of the
nodes before it:

* what an algebra needs for that is said of one node at a time (`Strict`), and the fold
  follows by induction over the tree (`Strict.fold`);
* the debugging form and the three printed forms are strict (`strict_debugging`,
  `strict_algebra`); they differ in what they say of an unknown operator, and the copying
  algebra is none of them, since it takes every operator.

So all printed forms fail on the same trees and at the same node (`folds_fail_alike`). The
debugging form does too, except that a tree which is missing altogether is a fault of
another kind (`debugText_missing_differs`).
-/

namespace Reckon

/-! ## Flaws -/

/-- What can be wrong with a node apart from its operands. -/
inductive Flaw
  /-- Nothing stands in its place. -/
  | missing
  /-- Its operator is outside the table of unary operators. -/
  | unary (code : Int)
  /-- Its operator is outside the table of binary operators. -/
  | binary (code : Int)
  deriving DecidableEq, Repr

def UnaryOp.flaw? : UnaryOp → Option Flaw
  | .unknown code => some (.unary code)
  | .negative | .not => none

def BinaryOp.flaw? : BinaryOp → Option Flaw
  | .unknown code => some (.binary code)
  | _ => none

namespace Expr

/-- The flaw of a node; those of its operands are their own. -/
def flaw? : Expr → Option Flaw
  | .missing => some .missing
  | .literal _ | .grouping _ => none
  | .unary op _ => op.flaw?
  | .binary _ op _ => op.flaw?

/-- The flaw of the node at the end of a path. -/
def flawAt? (e : Expr) (path : List Turn) : Option Flaw := (e.node? path).bind flaw?

/-- The paths to all nodes of a tree: left operand, right operand, node. -/
def places : Expr → List (List Turn)
  | .missing | .literal _ => [[]]
  | .grouping e | .unary _ e => e.places.map (.inner :: ·) ++ [[]]
  | .binary l _ r => l.places.map (.left :: ·) ++ r.places.map (.right :: ·) ++ [[]]

/-- The first flaw of a tree. -/
def firstFlaw? (e : Expr) : Option Flaw := e.places.findSome? e.flawAt?

theorem mem_places_of_node? {e node : Expr} {path : List Turn} (h : e.node? path = some node) :
    path ∈ e.places := by
  induction e generalizing path with
  | missing | literal =>
      cases path with
      | nil => exact List.mem_singleton_self _
      | cons turn path => simp [node?] at h
  | grouping e ih | unary op e ih =>
      cases path with
      | nil => exact List.mem_append_right _ (List.mem_singleton_self _)
      | cons turn path =>
          cases turn with
          | left | right => simp [node?] at h
          | inner => exact List.mem_append_left _ (List.mem_map_of_mem (ih h))
  | binary l op r ihl ihr =>
      cases path with
      | nil => exact List.mem_append_right _ (List.mem_singleton_self _)
      | cons turn path =>
          refine List.mem_append_left _ ?_
          cases turn with
          | inner => simp [node?] at h
          | left => exact List.mem_append_left _ (List.mem_map_of_mem (ihl h))
          | right => exact List.mem_append_right _ (List.mem_map_of_mem (ihr h))

/-- A tree without a first flaw has no flaw anywhere. -/
theorem firstFlaw?_eq_none_iff {e : Expr} :
    e.firstFlaw? = none ↔ ∀ path, e.flawAt? path = none := by
  rw [firstFlaw?, List.findSome?_eq_none_iff]
  constructor
  · intro none path
    cases found : e.node? path with
    | none => rw [flawAt?, found, Option.bind_none]
    | some node => exact none path (mem_places_of_node? found)
  · exact fun none path _ => none path

/-- The first flaw is that of the first node that has one. -/
theorem firstFlaw?_eq_some_iff {e : Expr} {flaw : Flaw} : e.firstFlaw? = some flaw ↔
    ∃ before path after, e.places = before ++ path :: after ∧ e.flawAt? path = some flaw ∧
      ∀ earlier ∈ before, e.flawAt? earlier = none := by
  rw [firstFlaw?, List.findSome?_eq_some_iff]

/-- The flaws below a turn are those of the operand. -/
theorem findSome?_flawAt?_below {e operand : Expr} {turn : Turn}
    (descends : ∀ path, e.node? (turn :: path) = operand.node? path) :
    (operand.places.map (turn :: ·)).findSome? e.flawAt? = operand.firstFlaw? := by
  have below : e.flawAt? ∘ (turn :: ·) = operand.flawAt? := by
    funext path
    rw [Function.comp_apply, flawAt?, flawAt?, descends]
  rw [List.findSome?_map, below, firstFlaw?]

theorem findSome?_flawAt?_root (e : Expr) : [[]].findSome? e.flawAt? = e.flaw? := by
  simp [flawAt?, node?]

theorem firstFlaw?_grouping (e : Expr) : (grouping e).firstFlaw? = e.firstFlaw? := by
  rw [firstFlaw?, places, List.findSome?_append, findSome?_flawAt?_below (node?_grouping e),
    findSome?_flawAt?_root, flaw?, Option.or_none]

theorem firstFlaw?_unary (op : UnaryOp) (e : Expr) :
    (unary op e).firstFlaw? = e.firstFlaw?.or op.flaw? := by
  rw [firstFlaw?, places, List.findSome?_append, findSome?_flawAt?_below (node?_unary op e),
    findSome?_flawAt?_root, flaw?]

theorem firstFlaw?_binary (l r : Expr) (op : BinaryOp) :
    (binary l op r).firstFlaw? = l.firstFlaw?.or (r.firstFlaw?.or op.flaw?) := by
  rw [firstFlaw?, places, List.findSome?_append, List.findSome?_append,
    findSome?_flawAt?_below (node?_left l r op), findSome?_flawAt?_below (node?_right l r op),
    findSome?_flawAt?_root, flaw?, Option.or_assoc]

end Expr

/-! ## Folds that fail at flaws -/

/-- A result that is the complaint about a flaw, or anything else if there is none. -/
def Heeds {α : Type} (complaint : Flaw → Fault) (flaw? : Option Flaw)
    (result : Except Fault α) : Prop :=
  match flaw? with
  | some flaw => result = .error (complaint flaw)
  | none => ∃ a, result = .ok a

/-- Of two flaws the first one met is complained about. -/
theorem Heeds.bind {α β : Type} {complaint : Flaw → Fault} {first second : Option Flaw}
    {result : Except Fault α} {next : α → Except Fault β} (h : Heeds complaint first result)
    (later : ∀ a, Heeds complaint second (next a)) :
    Heeds complaint (first.or second) (result >>= next) := by
  cases first with
  | some flaw =>
      have failed : result = .error (complaint flaw) := h
      rw [failed]
      rfl
  | none =>
      obtain ⟨a, rfl⟩ := h
      exact later a

/-- An algebra that fails at an operator outside the tables, and at no other; `complaint`
is what it says of a flaw. -/
structure Strict {α : Type} (alg : Algebra α) (complaint : Flaw → Fault) : Prop where
  missing : complaint .missing = .missingExpr
  unary : ∀ op a, Heeds complaint op.flaw? (alg.unary op a)
  binary : ∀ a op b, Heeds complaint op.flaw? (alg.binary a op b)

/-- A fold of a strict algebra fails at the first flaw. -/
theorem Strict.fold {α : Type} {alg : Algebra α} {complaint : Flaw → Fault}
    (h : Strict alg complaint) (e : Expr) : Heeds complaint e.firstFlaw? (e.fold alg) := by
  induction e with
  | missing => exact congrArg Except.error h.missing.symm
  | literal v => exact ⟨alg.literal v, rfl⟩
  | grouping e ih =>
      rw [Expr.firstFlaw?_grouping, ← Option.or_none (o := e.firstFlaw?)]
      exact ih.bind fun a => ⟨alg.grouping a, rfl⟩
  | unary op e ih =>
      rw [Expr.firstFlaw?_unary]
      exact ih.bind fun a => h.unary op a
  | binary l op r ihl ihr =>
      rw [Expr.firstFlaw?_binary]
      exact ihl.bind fun a => ihr.bind fun b => h.binary a op b

/-! ## The forms -/

/-- The fault of a flaw: there is no expression, or no symbol for an operator. -/
def Flaw.fault : Flaw → Fault
  | missing => .missingExpr
  | unary code => .unarySymbol code
  | binary code => .binarySymbol code

/-- What a printed form says of a flaw. The postfix form looks up no symbol of a unary
operator. -/
def Form.complaint : Form → Flaw → Fault
  | .rpn, .unary code => .unaryMeaning code
  | _, flaw => flaw.fault

theorem strict_debugging : Strict Expr.debugging Flaw.fault := by
  refine ⟨rfl, fun op a => ?_, fun a op b => ?_⟩
  · cases op with
    | unknown code => rfl
    | negative | not => exact ⟨_, rfl⟩
  · cases op with
    | unknown code => rfl
    | _ => exact ⟨_, rfl⟩

theorem strict_algebra (form : Form) : Strict form.algebra form.complaint := by
  refine ⟨by cases form <;> rfl, fun op a => ?_, fun a op b => ?_⟩
  · cases op with
    | unknown code => cases form <;> rfl
    | negative | not => cases form <;> exact ⟨_, rfl⟩
  · cases op with
    | unknown code => cases form <;> rfl
    | _ => cases form <;> exact ⟨_, rfl⟩

/-- The wording of what a form says of a flaw: there is no expression, an index is outside
a table of symbols, or the postfix form does not know an operator. -/
def Flaw.wording : Form → Flaw → Bytes
  | _, missing => Bytes.ofString "unexpected expression <nil>"
  | _, binary code => Fault.outOfRange code 12
  | .rpn, unary code => Bytes.ofString "unexpected unary operator "
      ++ (Bytes.ofString "UnaryOperator(" ++ Bytes.ofInt code ++ Bytes.ofString ")")
  | .infixForm, unary code | .lispy, unary code => Fault.outOfRange code 2

theorem message_complaint (form : Form) (flaw : Flaw) :
    (form.complaint flaw).message = flaw.wording form := by
  cases form <;> cases flaw <;> rfl

theorem message_fault (flaw : Flaw) : flaw.fault.message = flaw.wording .infixForm :=
  message_complaint .infixForm flaw

/-- Only a literal has a debugging form of its own, and a tree that is missing none. -/
theorem Expr.debugText_eq_fold {e : Expr} (there : e ≠ .missing) (inner : ∀ v, e ≠ .literal v) :
    e.debugText = e.fold debugging := by
  cases e with
  | missing => exact absurd rfl there
  | literal v => exact absurd rfl (inner v)
  | grouping | unary | binary => rfl

/-- A tree is whole if something stands at each of its places. -/
theorem Expr.isWhole_of_node? {e : Expr} (there : ∀ path, e.node? path ≠ some .missing) :
    e.isWhole = true := by
  induction e with
  | missing => exact absurd (by rw [node?]) (there [])
  | literal v => rfl
  | grouping e ih => exact ih fun path => there (.inner :: path)
  | unary op e ih => exact ih fun path => there (.inner :: path)
  | binary l op r ihl ihr =>
      rw [isWhole, Bool.and_eq_true]
      exact ⟨ihl fun path => there (.left :: path), ihr fun path => there (.right :: path)⟩

/-- What the folds make of a tree and its flaws. -/
structure FailsAlike (e : Expr) : Prop where
  /-- Without a flaw every form is written. -/
  flawless : (∀ path, e.flawAt? path = none) →
    (∀ form : Form, ∃ text, form.print e = .ok text) ∧ ∃ text, e.debugText = .ok text
  /-- With one, every form fails at the first flawed node in the order left operand, right
  operand, node. -/
  flawed : (∃ path, e.flawAt? path ≠ none) →
    ∃ before path after flaw, e.places = before ++ path :: after ∧
      e.flawAt? path = some flaw ∧ (∀ earlier ∈ before, e.flawAt? earlier = none) ∧
      (∀ form : Form, form.print e = .error (form.complaint flaw) ∧
        (form.complaint flaw).message = flaw.wording form) ∧
      (e ≠ .missing → e.debugText = .error flaw.fault ∧
        flaw.fault.message = flaw.wording .infixForm)
  /-- A tree that is missing altogether has no debugging form either. -/
  missing : e = .missing → e.debugText = .error .missingTree ∧ Fault.missingTree.message =
    Bytes.ofString "runtime error: invalid memory address or nil pointer dereference"
  /-- A copy of a tree without missing nodes is that tree, whatever its operators. -/
  copied : (∀ path, e.node? path ≠ some .missing) → e.fold Expr.copying = .ok e

/-- **Folds fail alike.** All printed forms of a tree are written if it has no flaw, and
otherwise all fail at one and the same node, the first flawed one; so does the debugging
form, unless the whole tree is missing. Copying takes any tree without missing nodes and
gives it back. -/
theorem folds_fail_alike (e : Expr) : FailsAlike e := by
  have printed (form : Form) : Heeds form.complaint e.firstFlaw? (form.print e) :=
    (strict_algebra form).fold e
  have shown : Heeds Flaw.fault e.firstFlaw? (e.fold Expr.debugging) := strict_debugging.fold e
  refine ⟨fun flawless => ?_, fun flawed => ?_, ?_, fun there => ?_⟩
  · rw [← Expr.firstFlaw?_eq_none_iff] at flawless
    rw [flawless] at printed shown
    refine ⟨printed, ?_⟩
    cases e with
    | missing => cases flawless
    | literal v => exact ⟨v.debugText, rfl⟩
    | grouping | unary | binary => exact shown
  · cases first : e.firstFlaw? with
    | none =>
        obtain ⟨path, found⟩ := flawed
        exact absurd (Expr.firstFlaw?_eq_none_iff.mp first path) found
    | some flaw =>
        obtain ⟨before, path, after, split, found, clear⟩ := Expr.firstFlaw?_eq_some_iff.mp first
        rw [first] at printed shown
        refine ⟨before, path, after, flaw, split, found, clear, fun form => ?_, fun there => ?_⟩
        · exact ⟨printed form, message_complaint form flaw⟩
        · rw [Expr.debugText_eq_fold there]
          · exact ⟨shown, message_fault flaw⟩
          · -- a literal has no flaw
            rintro v rfl
            cases first
  · rintro rfl
    exact ⟨rfl, rfl⟩
  · exact e.fold_copying (Expr.isWhole_of_node? there)

/-- The debugging form does not say of a missing tree what is said of a missing node. -/
theorem debugText_missing_differs :
    ¬ ∀ (e : Expr) (flaw : Flaw), (∀ v, e ≠ .literal v) → e.firstFlaw? = some flaw →
      ∃ fault, e.debugText = .error fault ∧ fault.message = flaw.wording .infixForm := by
  intro alike
  obtain ⟨fault, failed, words⟩ := alike .missing .missing nofun rfl
  cases failed
  exact absurd words (by decide)

end Reckon
