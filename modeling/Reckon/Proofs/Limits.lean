import Reckon.CaseTable
import Reckon.Settings

/-!
# Limits of a document

Nothing is read from a document that is nested too deep, and nothing is decoded from one whose
references lead to too many nodes:

* no lexeme opens more brackets or block collections than may be open, whatever the text is
  (`Outline.next_nested`), so neither do all lexemes of a text (`Outline.run_nested`);
* `Decoding.Moderate` says that a decoding never ends with too many nodes decoded by way of
  references. It is a property of counting a node (`Scope.moderate_count`) and is passed on to
  all that is decoded, mappings merged into one another as well (`moderate_decodeEntries`).
-/

namespace Reckon

namespace Document

/-! ## Nesting -/

namespace Outline

/-- Brackets and block collections are nested no deeper than they may be. -/
structure Nested (o : Outline) : Prop where
  brackets : o.starts.length ≤ maxDepth
  blocks : o.outer.length ≤ maxDepth

/-- If an outline is reached, it is nested no deeper than it may be. -/
def Reaches (o? : Option Outline) : Prop := ∀ o, o? = some o → o.Nested

variable {o : Outline}

theorem reaches_none : Reaches none := nofun

theorem Nested.reaches (h : o.Nested) : Reaches (some o) := by
  rintro _ ⟨⟩
  exact h

theorem Reaches.bind {o? : Option Outline} {f : Outline → Option Outline} (h : Reaches o?)
    (going : ∀ o : Outline, o.Nested → Reaches (f o)) : Reaches (o? >>= f) := by
  cases o? with
  | none => exact reaches_none
  | some o => exact going o (h o rfl)

theorem Reaches.ite {p : Prop} [Decidable p] {o₁? o₂? : Option Outline} (yes : Reaches o₁?)
    (no : Reaches o₂?) : Reaches (if p then o₁? else o₂?) := by
  split
  · exact yes
  · exact no

theorem Nested.dropStart (h : o.Nested) : Reaches o.dropStart := by
  unfold Outline.dropStart
  split
  · split
    · exact reaches_none
    · exact Nested.reaches ⟨h.brackets, h.blocks⟩
  · exact h.reaches

theorem Nested.noteStart (h : o.Nested) : Reaches o.noteStart := by
  unfold Outline.noteStart
  split
  · exact h.dropStart.bind fun o h => Nested.reaches ⟨h.brackets, h.blocks⟩
  · exact h.reaches

/-- A block collection is opened only where one more may be open. -/
theorem Nested.openBlock (h : o.Nested) (position line column : Nat) (sign : Sign) :
    Reaches (o.openBlock position line column sign) := by
  unfold Outline.openBlock
  split
  · exact h.reaches
  split
  · exact reaches_none
  · next room => exact Nested.reaches ⟨h.brackets, Nat.lt_of_not_le room⟩

theorem Nested.closeBlocks (h : o.Nested) (column : Int) : (o.closeBlocks column).Nested := by
  have closed (outer : List Int) (fits : outer.length ≤ maxDepth) (o : Outline)
      (h : o.Nested) : (closeBlocks.go column o outer).Nested := by
    induction outer generalizing o with
    | nil => exact h
    | cons around more ih =>
        rw [closeBlocks.go]
        have fewer : more.length ≤ maxDepth := Nat.le_of_succ_le fits
        split
        · exact ih fewer _ ⟨h.brackets, fewer⟩
        · exact h
  unfold Outline.closeBlocks
  split
  · exact h
  · exact closed o.outer h.blocks o h

theorem Nested.closeAll (h : o.Nested) : Reaches o.closeAll :=
  (h.closeBlocks (-1)).dropStart.bind fun _ h => Nested.reaches ⟨h.brackets, h.blocks⟩

/-! ### One lexeme -/

/-- A bracket is opened only where one more may be open. -/
theorem Nested.openFlow (h : o.Nested) (sign : Sign) (rest : List Char) :
    Reaches (o.openFlow sign rest) := by
  refine h.noteStart.bind fun o h => ?_
  split
  · exact reaches_none
  · next room => exact Nested.reaches ⟨Nat.lt_of_not_le room, h.blocks⟩

theorem Nested.closeFlow (h : o.Nested) (sign : Sign) (rest : List Char) :
    Reaches (o.closeFlow sign rest) := by
  refine h.dropStart.bind fun o h => ?_
  split
  · exact Nested.reaches ⟨h.brackets, h.blocks⟩
  · next around =>
      have fits := h.brackets
      rw [around] at fits
      exact Nested.reaches ⟨Nat.le_of_succ_le fits, h.blocks⟩

theorem Nested.takeBlockMark (h : o.Nested) (sign collection : Sign) (rest : List Char) :
    Reaches (o.takeBlockMark sign collection rest) := by
  unfold Outline.takeBlockMark
  split
  · exact reaches_none
  · exact (h.openBlock _ _ _ _).bind fun o h => h.dropStart.bind fun o h =>
      Nested.reaches ⟨h.brackets, h.blocks⟩

theorem Nested.takeValue (h : o.Nested) (rest : List Char) : Reaches (o.takeValue rest) := by
  have unkeyed (o : Outline) (h : o.Nested) : Reaches (takeValue.unkeyed rest o) := by
    unfold takeValue.unkeyed
    split
    · exact Nested.reaches ⟨h.brackets, h.blocks⟩
    split
    · exact reaches_none
    · exact (h.openBlock _ _ _ _).bind fun o h => Nested.reaches ⟨h.brackets, h.blocks⟩
  unfold Outline.takeValue
  split
  · split
    · refine Reaches.bind (Nested.openBlock ?_ _ _ _ _) fun o h =>
        Nested.reaches ⟨h.brackets, h.blocks⟩
      exact ⟨h.brackets, h.blocks⟩
    split
    · exact reaches_none
    · exact unkeyed _ ⟨h.brackets, h.blocks⟩
  · exact unkeyed o h

/-- Taking something that may be a key opens nothing. -/
theorem Nested.takeContent (h : o.Nested) (read? : Option (Sign × List Char)) :
    Reaches (o.takeContent read?) := by
  refine h.noteStart.bind fun o h => ?_
  cases read? with
  | none => exact reaches_none
  | some read => exact Nested.reaches ⟨h.brackets, h.blocks⟩

theorem Nested.takeBlockScalar (h : o.Nested) (literal : Bool) (rest : List Char) :
    Reaches (o.takeBlockScalar literal rest) := by
  refine h.dropStart.bind fun o h => ?_
  cases blockScalar literal o.indent rest with
  | none => exact reaches_none
  | some read => exact Nested.reaches ⟨h.brackets, h.blocks⟩

theorem Nested.takePlain (h : o.Nested) : Reaches o.takePlain := by
  refine h.noteStart.bind fun o h => ?_
  cases plainFrom o.inFlow (o.indent + 1) .none o.cursor.column o.cursor.rest with
  | none => exact reaches_none
  | some s =>
      refine Nested.reaches ?_
      split <;> exact ⟨h.brackets, h.blocks⟩

theorem Nested.takeDirective (h : o.Nested) (rest : List Char) :
    Reaches (o.takeDirective rest) := by
  refine h.closeAll.bind fun o h => ?_
  cases directive? rest with
  | none => exact reaches_none
  | some read => exact Nested.reaches ⟨h.brackets, h.blocks⟩

theorem Nested.takeAt (h : o.Nested) (c : Char) (rest : List Char) : Reaches (o.takeAt c rest) := by
  have remarked {o? : Option Outline} (reaches : Reaches o?) : Reaches (takeAt.remarked o?) := by
    cases o? with
    | none => exact reaches_none
    | some o =>
        have h := reaches o rfl
        exact Nested.reaches ⟨h.brackets, h.blocks⟩
  have keyed : Reaches (o.takeKey rest) := (h.takeBlockMark _ _ _).bind fun o h =>
    Nested.reaches ⟨h.brackets, h.blocks⟩
  have parted : Reaches (o.takeComma rest) := h.dropStart.bind fun o h =>
    Nested.reaches ⟨h.brackets, h.blocks⟩
  unfold Outline.takeAt
  refine .ite (remarked (h.openFlow _ _)) ?_
  refine .ite (remarked (h.openFlow _ _)) ?_
  refine .ite (remarked (h.closeFlow _ _)) ?_
  refine .ite (remarked (h.closeFlow _ _)) ?_
  refine .ite (remarked parted) ?_
  refine .ite ((h.takeBlockMark _ _ _).bind fun o h => Nested.reaches ⟨h.brackets, h.blocks⟩) ?_
  refine .ite (remarked keyed) ?_
  refine .ite (remarked (h.takeValue rest)) ?_
  refine .ite (remarked (h.takeContent _)) ?_
  refine .ite (remarked (h.takeContent _)) ?_
  refine .ite (remarked (h.takeContent _)) ?_
  refine .ite (h.takeBlockScalar _ _) ?_
  refine .ite (remarked (h.takeContent _)) ?_
  refine .ite (remarked (h.takeContent _)) ?_
  exact .ite h.takePlain reaches_none

/-! ### All lexemes -/

/-- **A lexeme opens nothing beyond the limit**, whatever is ahead. -/
theorem next_nested {o' : Outline} (h : o.Nested) (next : o.next = some o') : o'.Nested := by
  have approached : o.approach.Nested := by
    refine Nested.closeBlocks ?_ _
    exact ⟨h.brackets, h.blocks⟩
  have taken : Reaches o.approach.take := by
    unfold Outline.take
    split
    · exact approached.closeAll.bind fun o h => Nested.reaches ⟨h.brackets, h.blocks⟩
    split
    · exact approached.takeDirective _
    split
    · exact approached.closeAll.bind fun o h => Nested.reaches ⟨h.brackets, h.blocks⟩
    · exact approached.takeAt _ _
  rw [Outline.next] at next
  split at next
  · exact taken o' (Option.filter_eq_some_iff.mp next).1
  · cases next

/-- **All lexemes of a text leave the nesting within the limit.** -/
theorem run_nested (fuel : Nat) (h : o.Nested) : (run fuel o).1.Nested := by
  induction fuel generalizing o with
  | zero => exact h
  | succ fuel ih =>
      rw [run]
      split
      next => exact h
      next o' next =>
        have nested := next_nested h next
        split
        · exact nested
        · exact ih nested

end Outline

/-! ## References -/

namespace Decoding

variable {α β : Type}

/-- A decoding never ends with too many nodes decoded by way of references, unless it starts
with too many. -/
def Moderate (x : Decoding α) : Prop :=
  ∀ t a t', t.isExcessive = false → x t = some (a, t') → t'.isExcessive = false

theorem moderate_pure (a : α) : Moderate (pure a : Decoding α) := by
  rintro t _ _ moderate ⟨⟩
  exact moderate

theorem moderate_failure : Moderate (failure : Decoding α) := nofun

/-- What is tried counts no node. -/
theorem moderate_lift (a? : Option α) : Moderate (monadLift a? : Decoding α) := by
  intro t a t' moderate decoded
  cases a? with
  | none => cases decoded
  | some a =>
      cases decoded
      exact moderate

theorem Moderate.bind {x : Decoding α} {f : α → Decoding β} (first : Moderate x)
    (later : ∀ a, Moderate (f a)) : Moderate (x >>= f) := by
  intro t b t' moderate decoded
  obtain ⟨⟨a, t₁⟩, decoded₁, decoded₂⟩ := Option.bind_eq_some_iff.mp decoded
  exact later a t₁ b t' (first t a t₁ moderate decoded₁) decoded₂

theorem Moderate.ite {p : Prop} [Decidable p] {x y : Decoding α} (yes : Moderate x)
    (no : Moderate y) : Moderate (if p then x else y) := by
  split
  · exact yes
  · exact no

theorem moderate_foldlM {f : β → α → Decoding β} (each : ∀ b a, Moderate (f b a)) (b : β)
    (as : List α) : Moderate (as.foldlM f b) := by
  induction as generalizing b with
  | nil => exact moderate_pure b
  | cons a as ih =>
      rw [List.foldlM_cons]
      exact (each b a).bind ih

end Decoding

open Decoding

/-- A node that would be one too many is not counted. -/
theorem Scope.moderate_count (s : Scope) : Moderate s.count := by
  intro t a t' _ counted
  rw [Scope.count] at counted
  split at counted
  next => cases counted
  next within =>
    cases counted
    exact Bool.eq_false_iff.mpr within

theorem Scope.moderate_resolve (s : Scope) (n : Node) : Moderate (s.resolve n) := by
  refine s.moderate_count.bind fun _ => ?_
  split
  · split
    · exact moderate_failure
    · exact (Scope.moderate_count _).bind fun _ => (moderate_lift _).bind fun _ => moderate_pure _
  · exact moderate_pure _

theorem Node.moderate_decodeText (s : Scope) (n : Node) (value : Bytes) :
    Moderate (n.decodeText s value) := by
  refine (s.moderate_resolve n).bind fun ⟨n, _⟩ => ?_
  cases n with
  | scalar line tag text =>
      refine (moderate_lift _).bind fun d => ?_
      cases d <;> exact moderate_pure _
  | _ => exact moderate_pure _

theorem Node.moderate_decodeTruth (s : Scope) (n : Node) (value : Bool) :
    Moderate (n.decodeTruth s value) := by
  refine (s.moderate_resolve n).bind fun ⟨n, _⟩ => ?_
  cases n with
  | scalar line tag text =>
      refine (moderate_lift _).bind fun d => ?_
      cases d with
      | text t =>
          dsimp only
          split <;> exact moderate_pure _
      | _ => exact moderate_pure _
  | _ => exact moderate_pure _

/-- What is decoded into values of a type keeps to the limit if its parts do. -/
def Shape.Moderate {α : Type} (sh : Shape α) : Prop :=
  ∀ s name n value, Decoding.Moderate (sh.decode s name n value)

section

variable {α : Type} {sh : Shape α}

theorem moderate_decodePart (h : sh.Moderate) (s : Scope) (key value : Node) (name : Bytes)
    (p : Progress α) : Moderate (p.decodePart sh s key value name) := by
  refine .ite (moderate_pure _) (.ite (moderate_pure _) ?_)
  exact (h _ _ _ _).bind fun _ => moderate_pure _

theorem moderate_decodeEntry (h : sh.Moderate) (s : Scope) (p : Progress α)
    (entry : Node × Node) : Moderate (p.decodeEntry sh s entry) := by
  refine .ite (moderate_pure _) ?_
  refine (entry.1.moderate_decodeText s []).bind fun key => .ite (moderate_pure _) ?_
  dsimp only
  split
  · exact moderate_decodePart h _ _ _ _ _
  · exact .ite (moderate_pure _) (moderate_decodePart h _ _ _ _ _)

theorem moderate_ownKeys (s : Scope) (entries : List (Node × Node)) :
    Moderate (ownKeys s entries) := by
  induction entries with
  | nil => exact moderate_pure _
  | cons entry entries ih =>
      refine (s.moderate_resolve entry.1).bind fun ⟨key, _⟩ => ?_
      cases key with
      | scalar line tag text =>
          refine (moderate_lift _).bind fun d => ?_
          cases d with
          | text t => exact ih.bind fun _ => moderate_pure _
          | _ => exact ih
      | _ => exact moderate_failure

/-- Mappings merged into one another keep to the limit together. -/
theorem moderate_decodeEntries (h : sh.Moderate) (fuel : Nat) (s : Scope)
    (entries : List (Node × Node)) (p : Progress α) :
    Moderate (decodeEntries sh fuel s entries p) := by
  induction fuel generalizing s entries p with
  | zero => exact moderate_failure
  | succ fuel ih =>
      rw [decodeEntries]
      split
      · refine (moderate_foldlM (moderate_decodeEntry h s) _ _).bind fun own => ?_
        split
        · exact moderate_pure _
        · extract_lets later
          -- whichever keys count no more, the mappings are merged in the same way
          have merging (taken : List Bytes) : Moderate (later taken) := by
            refine (moderate_lift _).bind fun nodes => ?_
            refine (moderate_foldlM (fun p n => ?_) _ _).bind fun _ => moderate_pure _
            refine (s.moderate_resolve n).bind fun resolved => ?_
            obtain ⟨n, s⟩ := resolved
            cases n with
            | mapping line tag entries => exact ih s entries p
            | _ => exact moderate_failure
          split
          · exact (moderate_pure _).bind merging
          · exact (moderate_ownKeys s entries).bind merging
      · exact moderate_pure _

theorem Node.moderate_decodeMapping (h : sh.Moderate) (start cleared : α → α) (s : Scope)
    (n : Node) (value : α) : Moderate (n.decodeMapping sh start cleared s value) := by
  refine (s.moderate_resolve n).bind fun ⟨n, s⟩ => ?_
  cases n with
  | mapping line tag entries =>
      exact (moderate_decodeEntries h _ _ _ _).bind fun _ => moderate_pure _
  | scalar line tag text =>
      refine (moderate_lift _).bind fun d => ?_
      cases d <;> exact moderate_pure _
  | _ => exact moderate_pure _

end

end Document

open Document Decoding

/-- **Settings are never decoded by way of too many references.** -/
theorem Settings.moderate_decode (d : Document) (base : Settings) :
    Moderate (Settings.decode d base) := by
  have parts : Settings.shape.Moderate := by
    intro s name n value
    have text (value : Bytes) := n.moderate_decodeText s value
    exact .ite ((text _).bind fun _ => moderate_pure _)
      (.ite ((text _).bind fun _ => moderate_pure _) ((text _).bind fun _ => moderate_pure _))
  unfold Settings.decode
  split
  · exact moderate_pure _
  · exact Node.moderate_decodeMapping parts _ _ _ _ _

/-- **Tables of cases are never decoded by way of too many references.** -/
theorem Case.moderate_decodeTable (d : Document) : Moderate (Case.decodeTable d) := by
  have expectations : Case.expectedShape.Moderate := by
    intro s stage n expected?
    exact (n.moderate_decodeText s []).bind fun _ => .ite (moderate_pure _) (moderate_pure _)
  have parts : Case.shape.Moderate := by
    intro s name n value
    have text (value : Bytes) := n.moderate_decodeText s value
    refine .ite ((text _).bind fun _ => moderate_pure _) ?_
    refine .ite ((n.moderate_decodeTruth s _).bind fun _ => moderate_pure _) ?_
    refine .ite ((text _).bind fun _ => moderate_pure _) ?_
    exact (n.moderate_decodeMapping expectations _ _ s _).bind fun _ => moderate_pure _
  have all (s : Scope) (items : List Node) : Moderate (Case.decodeAll s items) := by
    induction items with
    | nil => exact moderate_pure _
    | cons n items ih =>
        exact (n.moderate_decodeMapping parts _ _ s _).bind fun _ => ih.bind fun _ =>
          moderate_pure _
  unfold Case.decodeTable
  dsimp only
  split
  · exact moderate_pure _
  · refine ((scope d).moderate_resolve _).bind fun ⟨n, s⟩ => ?_
    cases n with
    | sequence line tag items => exact all s items
    | scalar line tag text =>
        refine (moderate_lift _).bind fun d => ?_
        cases d <;> exact moderate_pure _
    | _ => exact moderate_pure _

end Reckon
