import Reckon.Document.Reader
import Reckon.Proofs.Lexemes

/-!
# Documents that are written

`Content` is what a document can say: texts, and lists and tables of contents. It has a written
form on one line, and what is read from that form is the content again:

* the lexemes found in the written form are `Content.signs`, if brackets are nested no deeper
  than they may be (`takes_written`);
* these lexemes build the tree of the content, whatever comes behind them (`builds_signs`);
* the written form decodes to its characters, and every lexeme has one
  (`characters_written`, `length_signs_le`).

`read?_written` puts this together.
-/

namespace Reckon

namespace Document

/-! ## Contents -/

/-- What a document says: a tree of texts, lists and tables. -/
inductive Content
  | text (cs : List Char)
  | list (items : List Content)
  | table (entries : List (List Char × Content))

namespace Content

/-- What holds of texts, and of lists and tables if it holds of what is in them, holds of
all contents. -/
theorem induct {P : Content → Prop} (text : ∀ cs, P (.text cs))
    (list : ∀ items, (∀ v ∈ items, P v) → P (.list items))
    (table : ∀ entries, (∀ e ∈ entries, P e.2) → P (.table entries)) (v : Content) : P v :=
  @Content.rec P (fun items => ∀ v ∈ items, P v) (fun entries => ∀ e ∈ entries, P e.2)
    (fun e => P e.2) text list table
    nofun (fun _ _ first rest => List.forall_mem_cons.mpr ⟨first, rest⟩)
    nofun (fun _ _ first rest => List.forall_mem_cons.mpr ⟨first, rest⟩) (fun _ _ v => v) v

/-- What stands before an item, which is nothing for the first one. -/
def separator {α : Type} (first : Bool) (comma : List α) : List α := if first then [] else comma

mutual

/-- A document that says something, on one line. Keys are marked, because a key without a
mark cannot be long. -/
def written : Content → List Char
  | text cs => inQuotes cs
  | list items => '[' :: writtenItems true items ++ [']']
  | table entries => '\x7b' :: writtenEntries true entries ++ ['\x7d']

def writtenItems (first : Bool) : List Content → List Char
  | [] => []
  | v :: rest => separator first [',', ' '] ++ v.written ++ writtenItems false rest

def writtenEntries (first : Bool) : List (List Char × Content) → List Char
  | [] => []
  | (key, v) :: rest =>
    separator first [',', ' '] ++ '?' :: ' ' :: inQuotes key ++ ':' :: ' ' :: v.written
      ++ writtenEntries false rest

end

mutual

/-- What the lexemes of the written form say. -/
def signs : Content → List Sign
  | text cs => [.scalar false (encoded cs)]
  | list items => .flowSequence :: signsItems true items ++ [.flowSequenceEnd]
  | table entries => .flowMapping :: signsEntries true entries ++ [.flowMappingEnd]

def signsItems (first : Bool) : List Content → List Sign
  | [] => []
  | v :: rest => separator first [.comma] ++ v.signs ++ signsItems false rest

def signsEntries (first : Bool) : List (List Char × Content) → List Sign
  | [] => []
  | (key, v) :: rest =>
    separator first [.comma] ++ .key :: .scalar false (encoded key) :: .value :: v.signs
      ++ signsEntries false rest

end

mutual

/-- The tree of the written form. -/
def node : Content → Node
  | text cs => .scalar 1 .str (encoded cs)
  | list items => .sequence 1 .seq (nodesItems items)
  | table entries => .mapping 1 .map (nodesEntries entries)

def nodesItems : List Content → List Node
  | [] => []
  | v :: rest => v.node :: nodesItems rest

def nodesEntries : List (List Char × Content) → List (Node × Node)
  | [] => []
  | (key, v) :: rest => (.scalar 1 .str (encoded key), v.node) :: nodesEntries rest

end

mutual

/-- How deep lists and tables are nested. -/
def depth : Content → Nat
  | text _ => 0
  | list items => depthItems items + 1
  | table entries => depthEntries entries + 1

def depthItems : List Content → Nat
  | [] => 0
  | v :: rest => max v.depth (depthItems rest)

def depthEntries : List (List Char × Content) → Nat
  | [] => 0
  | (_, v) :: rest => max v.depth (depthEntries rest)

end

/-! ### The lexemes of the written form -/

theorem exists_written_cons (v : Content) : ∃ c ∈ openings, ∃ cs, v.written = c :: cs := by
  cases v with
  | text cs => exact ⟨doubleQuote, by decide, _, rfl⟩
  | list items => exact ⟨'[', by decide, _, rfl⟩
  | table entries => exact ⟨'\x7b', by decide, _, rfl⟩

theorem exists_signs_cons (v : Content) : ∃ sign signs, v.signs = sign :: signs := by
  cases v <;> exact ⟨_, _, rfl⟩

theorem unremarked_written (v : Content) (rest : List Char) : Unremarked (v.written ++ rest) := by
  obtain ⟨c, opening, cs, eq⟩ := v.exists_written_cons
  rw [eq]
  exact unremarked_cons opening _

theorem unremarked_writtenItems (first : Bool) (items : List Content) {rest : List Char}
    (behind : Unremarked rest) : Unremarked (writtenItems first items ++ rest) := by
  cases items with
  | nil => exact behind
  | cons v items =>
      cases first with
      | false => exact unremarked_cons (by decide) _
      | true =>
          simp only [writtenItems, separator, List.append_assoc]
          exact v.unremarked_written _

theorem unremarked_writtenEntries (first : Bool) (entries : List (List Char × Content))
    {rest : List Char} (behind : Unremarked rest) :
    Unremarked (writtenEntries first entries ++ rest) := by
  cases entries with
  | nil => exact behind
  | cons e entries => cases first <;> exact unremarked_cons (by decide) _

theorem depth_le_items {items : List Content} {v : Content} (member : v ∈ items) :
    v.depth ≤ depthItems items := by
  induction items with
  | nil => cases member
  | cons w items ih =>
      rw [depthItems]
      rcases List.mem_cons.mp member with rfl | member
      · exact Nat.le_max_left _ _
      · exact (ih member).trans (Nat.le_max_right _ _)

theorem depth_le_entries {entries : List (List Char × Content)} {e : List Char × Content}
    (member : e ∈ entries) : e.2.depth ≤ depthEntries entries := by
  induction entries with
  | nil => cases member
  | cons w entries ih =>
      rw [depthEntries]
      rcases List.mem_cons.mp member with rfl | member
      · exact Nat.le_max_left _ _
      · exact (ih member).trans (Nat.le_max_right _ _)

open Outline

theorem takes_separated {written : List Char} {sign : Sign} {signs : List Sign} {d : Nat}
    (first : Bool) (h : Takes written (sign :: signs) d d)
    (unremarked : ∀ rest, Unremarked rest → Unremarked (written ++ rest)) :
    Takes (separator first [',', ' '] ++ written) (separator first [.comma] ++ sign :: signs) d
      d := by
  cases first with
  | true => exact h
  | false =>
      exact takes_comma.append h.space fun rest behind => unremarked_space (unremarked rest behind)

theorem takes_items {items : List Content} {d : Nat} (h : ∀ v ∈ items, Takes v.written v.signs d d)
    (first : Bool) : Takes (writtenItems first items) (signsItems first items) d d := by
  induction items generalizing first with
  | nil => exact .nil
  | cons v items ih =>
      obtain ⟨sign, signs, eq⟩ := v.exists_signs_cons
      have item := h v List.mem_cons_self
      rw [eq] at item
      have separated := takes_separated first item fun rest _ => v.unremarked_written rest
      have later := ih (fun w member => h w (List.mem_cons_of_mem _ member)) false
      rw [writtenItems, signsItems, eq]
      exact separated.append later fun rest => unremarked_writtenItems false items

theorem takes_entries {entries : List (List Char × Content)} {d : Nat}
    (h : ∀ e ∈ entries, Takes e.2.written e.2.signs (d + 1) (d + 1)) (first : Bool) :
    Takes (writtenEntries first entries) (signsEntries first entries) (d + 1) (d + 1) := by
  induction entries generalizing first with
  | nil => exact .nil
  | cons e entries ih =>
      obtain ⟨key, v⟩ := e
      have value := h (key, v) List.mem_cons_self
      have later := ih (fun w member => h w (List.mem_cons_of_mem _ member)) false
      obtain ⟨sign, signs, eq⟩ := v.exists_signs_cons
      simp only [eq] at value
      have entry : Takes (('?' :: ' ' :: inQuotes key ++ [':']) ++ ' ' :: v.written)
          (.key :: .scalar false (encoded key) :: .value :: sign :: signs) (d + 1) (d + 1) :=
        (takes_key key).append value.space fun rest _ =>
          unremarked_space (v.unremarked_written rest)
      have separated := takes_separated first entry fun rest _ => unremarked_cons (by decide) _
      have all := separated.append later fun rest => unremarked_writtenEntries false entries
      rw [writtenEntries, signsEntries, eq]
      simpa using all

/-- **What is written is taken lexeme by lexeme**, within brackets that leave room. -/
theorem takes_written (v : Content) {d : Nat} (room : d + v.depth ≤ maxDepth) :
    Takes v.written v.signs d d := by
  induction v using Content.induct generalizing d with
  | text cs => exact takes_text cs
  | list items ih =>
      rw [depth] at room
      have inside : Takes (writtenItems true items) (signsItems true items) (d + 1) (d + 1) := by
        refine takes_items (fun v member => ih v member ?_) true
        have := depth_le_items member
        omega
      exact takes_list (by omega) inside fun rest => unremarked_writtenItems true items
  | table entries ih =>
      rw [depth] at room
      have inside :
          Takes (writtenEntries true entries) (signsEntries true entries) (d + 1) (d + 1) := by
        refine takes_entries (fun e member => ih e member ?_) true
        have := depth_le_entries member
        omega
      exact takes_table (by omega) inside fun rest => unremarked_writtenEntries true entries

/-! ### The characters of the written form -/

theorem isInline_separator (first : Bool) :
    ∀ x ∈ separator first [',', ' '], isInline x = true := by
  cases first with
  | true => exact nofun
  | false => exact List.forall_mem_cons.mpr ⟨by decide, List.forall_mem_singleton.mpr (by decide)⟩

theorem isInline_items {items : List Content} (h : ∀ v ∈ items, ∀ x ∈ v.written, isInline x = true)
    (first : Bool) : ∀ x ∈ writtenItems first items, isInline x = true := by
  induction items generalizing first with
  | nil => exact nofun
  | cons v items ih =>
      have later := ih (fun w member => h w (List.mem_cons_of_mem _ member)) false
      simp only [writtenItems, List.forall_mem_append]
      exact ⟨⟨isInline_separator first, h v List.mem_cons_self⟩, later⟩

theorem isInline_entries {entries : List (List Char × Content)}
    (h : ∀ e ∈ entries, ∀ x ∈ e.2.written, isInline x = true) (first : Bool) :
    ∀ x ∈ writtenEntries first entries, isInline x = true := by
  have marks : isInline '?' = true ∧ isInline ' ' = true ∧ isInline ':' = true := by decide
  induction entries generalizing first with
  | nil => exact nofun
  | cons e entries ih =>
      obtain ⟨key, v⟩ := e
      have value := h (key, v) List.mem_cons_self
      have later := ih (fun w member => h w (List.mem_cons_of_mem _ member)) false
      have name : ∀ x ∈ inQuotes key, isInline x = true := fun x => isInline_inQuotes
      simp only [writtenEntries, List.forall_mem_append, List.forall_mem_cons]
      exact ⟨⟨⟨isInline_separator first, marks.1, marks.2.1, name⟩, marks.2.2, marks.2.1, value⟩,
        later⟩

theorem isInline_written (v : Content) : ∀ x ∈ v.written, isInline x = true := by
  have marks : isInline '[' = true ∧ isInline ']' = true ∧ isInline '\x7b' = true ∧
      isInline '\x7d' = true := by decide
  induction v using Content.induct with
  | text cs => exact fun x => isInline_inQuotes
  | list items ih =>
      have inside := isInline_items ih true
      simp only [written, List.forall_mem_append, List.forall_mem_cons, List.cons_append]
      exact ⟨marks.1, inside, marks.2.1, nofun⟩
  | table entries ih =>
      have inside := isInline_entries ih true
      simp only [written, List.forall_mem_append, List.forall_mem_cons, List.cons_append]
      exact ⟨marks.2.2.1, inside, marks.2.2.2, nofun⟩

theorem length_separator_le (first : Bool) :
    (separator first [Sign.comma]).length ≤ (separator first [',', ' ']).length := by
  cases first <;> decide

theorem length_items_le {items : List Content}
    (h : ∀ v ∈ items, v.signs.length ≤ v.written.length) (first : Bool) :
    (signsItems first items).length ≤ (writtenItems first items).length := by
  induction items generalizing first with
  | nil => exact Nat.le_refl 0
  | cons v items ih =>
      have own := h v List.mem_cons_self
      have later := ih (fun w member => h w (List.mem_cons_of_mem _ member)) false
      have before := length_separator_le first
      simp only [signsItems, writtenItems, List.length_append]
      omega

theorem length_entries_le {entries : List (List Char × Content)}
    (h : ∀ e ∈ entries, e.2.signs.length ≤ e.2.written.length) (first : Bool) :
    (signsEntries first entries).length ≤ (writtenEntries first entries).length := by
  induction entries generalizing first with
  | nil => exact Nat.le_refl 0
  | cons e entries ih =>
      obtain ⟨key, v⟩ := e
      have own : v.signs.length ≤ v.written.length := h (key, v) List.mem_cons_self
      have later := ih (fun w member => h w (List.mem_cons_of_mem _ member)) false
      have before := length_separator_le first
      simp only [signsEntries, writtenEntries, List.length_append, List.length_cons]
      omega

/-- There is a character for every lexeme. -/
theorem length_signs_le (v : Content) : v.signs.length ≤ v.written.length := by
  induction v using Content.induct with
  | text cs => simp [signs, written, inQuotes]
  | list items ih =>
      have inside := length_items_le ih true
      simp only [signs, written, List.length_append, List.length_cons]
      omega
  | table entries ih =>
      have inside := length_entries_le ih true
      simp only [signs, written, List.length_append, List.length_cons]
      omega

/-- **The written form decodes to its characters.** -/
theorem characters_written (v : Content) : characters (encoded v.written) = (v.written, true) := by
  have inline := v.isInline_written
  simp only [isInline, Bool.and_eq_true, bne_iff_ne] at inline
  rw [characters_encoded fun x member => (inline x member).1.1.1]
  · rw [unifyLineEnds_eq fun x member => ⟨(inline x member).1.2, (inline x member).2⟩]
  · obtain ⟨c, opening, cs, eq⟩ := v.exists_written_cons
    rw [eq]
    have solid := solid_of_opening c opening
    simp [solid]

end Content

/-! ## Nodes -/

namespace Reading

/-- A reading with given lexemes ahead, all on the first line. -/
def ahead (r : Reading) (signs : List Sign) : Reading := { r with rest := signs.map (Lexeme.mk 1) }

end Reading

namespace Content

open Reading

/-- A node is built from lexemes in the same way, whatever may come behind. -/
def Builds (signs : List Sign) (n : Node) : Prop :=
  ∀ (fuel : Nat) (block loose : Bool) (r : Reading) (more : List Sign), signs.length ≤ fuel →
    Reading.node fuel block loose (r.ahead (signs ++ more)) = some (n, r.ahead more)

theorem builds_text (cs : List Char) :
    Builds [.scalar false (encoded cs)] (.scalar 1 .str (encoded cs)) := by
  intro fuel block loose r more enough
  obtain ⟨fuel, rfl⟩ := Nat.exists_eq_add_one_of_ne_zero (Nat.one_le_iff_ne_zero.mp enough)
  rfl

theorem flowItems_ahead (v : Content) (first : Bool) (fuel : Nat) (built : List Node) (r : Reading)
    (more : List Sign) :
    flowItems (fuel + 1) first built (r.ahead (separator first [.comma] ++ v.signs ++ more)) =
      (Reading.node fuel false false (r.ahead (v.signs ++ more))).bind fun p =>
        flowItems fuel false (built ++ [p.1]) p.2 := by
  cases first <;> cases v <;> rfl

theorem flowItems_end (first : Bool) (fuel : Nat) (built : List Node) (r : Reading)
    (more : List Sign) :
    flowItems (fuel + 1) first built (r.ahead (.flowSequenceEnd :: more)) =
      some (built, r.ahead more) := by
  cases first <;> rfl

theorem flowItems_signs {items : List Content} (h : ∀ v ∈ items, Builds v.signs v.node)
    (first : Bool) (fuel : Nat) (built : List Node) (r : Reading) (more : List Sign)
    (enough : (signsItems first items).length < fuel) :
    flowItems fuel first built (r.ahead (signsItems first items ++ .flowSequenceEnd :: more)) =
      some (built ++ nodesItems items, r.ahead more) := by
  induction items generalizing first fuel built with
  | nil =>
      obtain ⟨fuel, rfl⟩ := Nat.exists_eq_add_one_of_ne_zero (Nat.ne_zero_of_lt enough)
      rw [signsItems, List.nil_append, flowItems_end, nodesItems, List.append_nil]
  | cons v items ih =>
      obtain ⟨fuel, rfl⟩ := Nat.exists_eq_add_one_of_ne_zero (Nat.ne_zero_of_lt enough)
      obtain ⟨sign, signs, eq⟩ := v.exists_signs_cons
      simp only [signsItems, List.length_append, eq, List.length_cons] at enough
      have room : v.signs.length ≤ fuel := by
        rw [eq, List.length_cons]
        omega
      have item := h v List.mem_cons_self fuel false false r
        (signsItems false items ++ .flowSequenceEnd :: more) room
      have later := ih (fun w member => h w (List.mem_cons_of_mem _ member)) false fuel
        (built ++ [v.node]) (by omega)
      rw [signsItems, List.append_assoc, flowItems_ahead, item, Option.bind_some, later, nodesItems]
      simp

theorem flowEntries_ahead (key : Bytes) (v : Content) (first : Bool) (fuel : Nat)
    (built : List (Node × Node)) (r : Reading) (more : List Sign) :
    flowEntries (fuel + 3) first built (r.ahead (separator first [.comma]
        ++ .key :: .scalar false key :: .value :: v.signs ++ more)) =
      (Reading.node fuel false false (r.ahead (v.signs ++ more))).bind fun p =>
        flowEntries (fuel + 2) false (built ++ [(.scalar 1 .str key, p.1)]) p.2 := by
  cases first <;> cases v <;> rfl

theorem flowEntries_end (first : Bool) (fuel : Nat) (built : List (Node × Node)) (r : Reading)
    (more : List Sign) :
    flowEntries (fuel + 1) first built (r.ahead (.flowMappingEnd :: more)) =
      some (built, r.ahead more) := by
  cases first <;> rfl

theorem flowEntries_signs {entries : List (List Char × Content)}
    (h : ∀ e ∈ entries, Builds e.2.signs e.2.node) (first : Bool) (fuel : Nat)
    (built : List (Node × Node)) (r : Reading) (more : List Sign)
    (enough : (signsEntries first entries).length < fuel) :
    flowEntries fuel first built (r.ahead (signsEntries first entries ++ .flowMappingEnd :: more)) =
      some (built ++ nodesEntries entries, r.ahead more) := by
  induction entries generalizing first fuel built with
  | nil =>
      obtain ⟨fuel, rfl⟩ := Nat.exists_eq_add_one_of_ne_zero (Nat.ne_zero_of_lt enough)
      rw [signsEntries, List.nil_append, flowEntries_end, nodesEntries, List.append_nil]
  | cons e entries ih =>
      obtain ⟨key, v⟩ := e
      simp only [signsEntries, List.length_append, List.length_cons] at enough
      obtain ⟨fuel, rfl⟩ := Nat.exists_eq_add_of_le' (show 3 ≤ fuel by omega)
      have inner : Builds v.signs v.node := h (key, v) List.mem_cons_self
      have value := inner fuel false false r (signsEntries false entries ++ .flowMappingEnd :: more)
        (by omega)
      have later := ih (fun w member => h w (List.mem_cons_of_mem _ member)) false (fuel + 2)
        (built ++ [(.scalar 1 .str (encoded key), v.node)]) (by omega)
      rw [signsEntries, List.append_assoc, flowEntries_ahead, value, Option.bind_some, later,
        nodesEntries]
      simp

/-- **The lexemes of the written form build its tree.** -/
theorem builds_signs (v : Content) : Builds v.signs v.node := by
  induction v using Content.induct with
  | text cs => exact builds_text cs
  | list items ih =>
      intro fuel block loose r more enough
      simp only [signs, List.length_append, List.length_cons] at enough
      obtain ⟨fuel, rfl⟩ := Nat.exists_eq_add_of_le' (show 1 ≤ fuel by omega)
      have inside := flowItems_signs ih true fuel [] r more (by omega)
      have shape : (list items).signs ++ more =
          .flowSequence :: (signsItems true items ++ .flowSequenceEnd :: more) := by
        simp [signs]
      have step : Reading.node (fuel + 1) block loose
            (r.ahead (.flowSequence :: (signsItems true items ++ .flowSequenceEnd :: more))) =
          (flowItems fuel true []
            (r.ahead (signsItems true items ++ .flowSequenceEnd :: more))).bind
              fun p => some (.sequence 1 .seq p.1, p.2) := rfl
      rw [shape, step, inside]
      rfl
  | table entries ih =>
      intro fuel block loose r more enough
      simp only [signs, List.length_append, List.length_cons] at enough
      obtain ⟨fuel, rfl⟩ := Nat.exists_eq_add_of_le' (show 1 ≤ fuel by omega)
      have inside := flowEntries_signs ih true fuel [] r more (by omega)
      have shape : (table entries).signs ++ more =
          .flowMapping :: (signsEntries true entries ++ .flowMappingEnd :: more) := by
        simp [signs]
      have step : Reading.node (fuel + 1) block loose
            (r.ahead (.flowMapping :: (signsEntries true entries ++ .flowMappingEnd :: more))) =
          (flowEntries fuel true []
            (r.ahead (signsEntries true entries ++ .flowMappingEnd :: more))).bind
              fun p => some (.mapping 1 .map p.1, p.2) := rfl
      rw [shape, step, inside]
      rfl

end Content

/-! ## Documents -/

/-- The outline of a written document is drawn to its end. -/
theorem run_written (v : Content) (room : v.depth ≤ Outline.maxDepth) :
    ∃ o, Outline.run (v.written.length + 2) { cursor := { rest := v.written } } = (o, false) ∧
      o.lexemes = (v.signs ++ [Sign.finish]).map (Lexeme.mk 1) := by
  have start : ({ cursor := { rest := v.written } } : Outline).Stands (v.written ++ []) [] 0 :=
    { rest := by simp, line := rfl, lexemes := rfl, indent := rfl, outer := rfl, depth := rfl,
      start := nofun, starts := nofun, whole := rfl }
  obtain ⟨o₁, leads, stands⟩ := v.takes_written (d := 0) (by omega) _ [] [] start nofun
  obtain ⟨o₂, next, lexemes⟩ := stands.finish
  have finished : o₂.isFinished = true := by simp [Outline.isFinished, lexemes]
  have few := v.length_signs_le
  obtain ⟨fuel, enough⟩ := Nat.exists_eq_add_of_le few
  refine ⟨o₂, ?_, lexemes⟩
  have count : v.written.length + 2 = (fuel + 1 + 1) + v.signs.length := by omega
  rw [count, leads.run_eq, Outline.run, next]
  simp [finished]

/-- **A document that is written is read.** The tree is the one that was written; there are
no anchors in it. -/
theorem read?_written (v : Content) (room : v.depth ≤ Outline.maxDepth) :
    read? (encoded v.written) = some ⟨some v.node, [], v.signs.length⟩ := by
  obtain ⟨o, run, lexemes⟩ := run_written v room
  let r : Reading := { rest := [], handles := Reading.usualHandles }
  have tree : Reading.tree { rest := o.lexemes } =
      (Reading.node (4 * o.lexemes.length + 4) true false (r.ahead (v.signs ++ [.finish]))).bind
        fun p => some (some p.1, p.2) := by
    rw [lexemes]
    cases v <;> rfl
  have built := v.builds_signs (4 * o.lexemes.length + 4) true false r [.finish]
    (by rw [lexemes, List.length_map, List.length_append]; omega)
  rw [built] at tree
  rw [read?, v.characters_written]
  have size : o.lexemes.length - (r.ahead [.finish]).rest.length = v.signs.length := by
    rw [lexemes, List.length_map, List.length_append]
    rfl
  simp only [run, tree, Option.bind_eq_bind, Option.bind_some, size]
  rfl

end Document
end Reckon
