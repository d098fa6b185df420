import Reckon.Settings
import Reckon.Proofs.Contents

/-!
# Settings that are written

A table of texts is decoded into a value by its entries, each of which sets the part that its
key names:

* `Shape.Puts` says that texts are decoded into parts in a given way, and one entry then sets
  one part (`decodeEntry_text`);
* entries with different keys are decoded one after another, and nothing is wrong with them
  (`foldlM_texts`, `decodeMapping_texts`).

`Settings.read_written` says what this means for settings, from the bytes of the document on.
-/

namespace Reckon

namespace Document

/-! ## Decoding -/

/-- Decoding goes on with what has been decoded. -/
theorem Decoding.bind_eq {α β : Type} {x : Decoding α} {f : α → Decoding β} {t t' : Tally} {a : α}
    (h : x t = some (a, t')) : (x >>= f) t = f a t' := by
  simp [bind, StateT.bind, h]

/-- Nodes that are no references never make a tally excessive. -/
theorem Scope.count_eq {s : Scope} (still : s.following = []) {t : Tally}
    (direct : t.referenced = 0) : s.count t = some ((), t.add false) := by
  simp [Scope.count, still, Tally.add, Tally.isExcessive, direct]

theorem Node.decodeText_str {s : Scope} (still : s.following = []) {t : Tally}
    (direct : t.referenced = 0) (line : Nat) (text value : Bytes) :
    (Node.scalar line .str text).decodeText s value t = some ({ value := text }, t.add false) := by
  have resolved : s.resolve (.scalar line .str text) t =
      some ((.scalar line .str text, s), t.add false) :=
    Decoding.bind_eq (Scope.count_eq still direct)
  exact Decoding.bind_eq resolved

/-! ### Tables of texts -/

/-- The entry that a key and a text are written as. -/
def textEntry (e : List Char × List Char) : Node × Node :=
  (.scalar 1 .str (encoded e.1), .scalar 1 .str (encoded e.2))

/-- A table whose values are texts. -/
def Content.ofTexts (entries : List (List Char × List Char)) : Content :=
  .table (entries.map fun e => (e.1, .text e.2))

theorem Content.node_ofTexts (entries : List (List Char × List Char)) :
    (Content.ofTexts entries).node = .mapping 1 .map (entries.map textEntry) := by
  have nodes : Content.nodesEntries (entries.map fun e => (e.1, .text e.2)) =
      entries.map textEntry := by
    induction entries with
    | nil => rfl
    | cons e entries ih =>
        rw [List.map_cons, Content.nodesEntries, ih]
        rfl
  rw [Content.ofTexts, Content.node, nodes]

theorem Content.depth_ofTexts (entries : List (List Char × List Char)) :
    (Content.ofTexts entries).depth = 1 := by
  have flat : Content.depthEntries (entries.map fun e => (e.1, .text e.2)) = 0 := by
    induction entries with
    | nil => rfl
    | cons e entries ih =>
        rw [List.map_cons, Content.depthEntries, ih]
        rfl
  rw [Content.ofTexts, Content.depth, flat]

theorem repeatedKeys_texts {entries : List (List Char × List Char)}
    (distinct : (entries.map Prod.fst).Nodup) : repeatedKeys (entries.map textEntry) = [] := by
  induction entries with
  | nil => rfl
  | cons e entries ih =>
      obtain ⟨fresh, later⟩ := List.nodup_cons.mp distinct
      rw [List.map_cons, textEntry, repeatedKeys, ih later, List.append_nil, List.map_eq_nil_iff,
        List.filter_eq_nil_iff]
      intro node member
      obtain ⟨d, there, rfl⟩ := List.mem_map.mp member
      have other : encoded e.1 ≠ encoded d.1 := by
        intro same
        exact fresh (encoded_injective same ▸ List.mem_map_of_mem there)
      simpa [textEntry, Node.sameKey] using other

namespace Shape

variable {α : Type} (sh : Shape α)

/-- Whether a key names a part. -/
def isPart (name : Bytes) : Bool :=
  sh.parts?.all fun names => names.any fun part => Bytes.ofString part == name

/-- Texts are decoded into parts as `put` says. -/
def Puts (put : α → Bytes → Bytes → α) : Prop :=
  ∀ (s : Scope) (t : Tally) (value : α) (name text : Bytes), s.following = [] →
    t.referenced = 0 → sh.isPart name = true →
      sh.decode s name (.scalar 1 .str text) value t =
        some ({ value := put value name text }, t.add false)

/-- A value with a part replaced, if there is a part of that name. -/
def set (put : α → Bytes → Bytes → α) (value : α) (name text : Bytes) : α :=
  if sh.isPart name then put value name text else value

/-- A value with the parts replaced that entries name, one entry after the other. -/
def setAll (put : α → Bytes → Bytes → α) (entries : List (List Char × List Char)) (value : α) : α :=
  entries.foldl (fun v e => sh.set put v (encoded e.1) (encoded e.2)) value

variable {sh} {put : α → Bytes → Bytes → α} {s : Scope} {t : Tally}

theorem decodeEntry_text (puts : sh.Puts put) (still : s.following = [])
    (direct : t.referenced = 0) (value : α) (errors : List DecodeError) {parts : List Bytes}
    {name : Bytes} (fresh : name ∉ parts) (text : Bytes) :
    ∃ t' parts', Progress.decodeEntry sh s ⟨value, errors, parts, none⟩
          (.scalar 1 .str name, .scalar 1 .str text) t =
        some (⟨sh.set put value name text, errors, parts', none⟩, t') ∧
      t'.referenced = 0 ∧ parts' ⊆ name :: parts := by
  have unmerging : ¬(Node.scalar 1 .str name).isMerge = true := by simp [Node.isMerge]
  have key : Progress.decodeEntry sh s ⟨value, errors, parts, none⟩
        (.scalar 1 .str name, .scalar 1 .str text) t =
      Progress.decodePart sh s (.scalar 1 .str name) (.scalar 1 .str text) name
        ⟨value, errors, parts, none⟩ (t.add false) := by
    rw [Progress.decodeEntry, if_neg unmerging,
      Decoding.bind_eq (Node.decodeText_str still direct _ _ _)]
    simp [Progress.complain]
  rw [key, Progress.decodePart]
  by_cases known : sh.isPart name = true
  · have told := puts s (t.add false) value name text still direct known
    refine ⟨(t.add false).add false, name :: parts, ?_, direct, List.Subset.refl _⟩
    rw [if_neg (by simpa [isPart] using known), if_neg (by simp [fresh]), Decoding.bind_eq told]
    simp [Progress.complain, set, known]
    rfl
  · refine ⟨t.add false, parts, ?_, direct, List.subset_cons_self _ _⟩
    rw [if_pos (by simpa [isPart] using known), set, if_neg known]
    rfl

theorem foldlM_texts (puts : sh.Puts put) (still : s.following = [])
    {entries : List (List Char × List Char)} (distinct : (entries.map Prod.fst).Nodup)
    (direct : t.referenced = 0) (value : α) (errors : List DecodeError) (parts : List Bytes)
    (fresh : ∀ e ∈ entries, encoded e.1 ∉ parts) :
    ∃ t' parts', (entries.map textEntry).foldlM (Progress.decodeEntry sh s)
          ⟨value, errors, parts, none⟩ t =
        some (⟨sh.setAll put entries value, errors, parts', none⟩, t') := by
  induction entries generalizing t value parts with
  | nil => exact ⟨t, parts, rfl⟩
  | cons e entries ih =>
      obtain ⟨new, later⟩ := List.nodup_cons.mp distinct
      obtain ⟨t₁, parts₁, decoded, direct₁, within⟩ := decodeEntry_text puts still direct value
        errors (fresh e List.mem_cons_self) (encoded e.2)
      have fresh₁ : ∀ d ∈ entries, encoded d.1 ∉ parts₁ := by
        intro d member there
        rcases List.mem_cons.mp (within there) with same | before
        · exact new (encoded_injective same ▸ List.mem_map_of_mem member)
        · exact fresh d (List.mem_cons_of_mem _ member) before
      obtain ⟨t₂, parts₂, rest⟩ :=
        ih later direct₁ (sh.set put value (encoded e.1) (encoded e.2)) parts₁ fresh₁
      refine ⟨t₂, parts₂, ?_⟩
      rw [List.map_cons, List.foldlM_cons, textEntry, Decoding.bind_eq decoded, rest]
      rfl

/-- **A table of texts is decoded entry by entry**, each text into the part that its key
names. -/
theorem decodeMapping_texts (puts : sh.Puts put) (d : Document)
    {entries : List (List Char × List Char)} (distinct : (entries.map Prod.fst).Nodup)
    (start cleared : α → α) (value : α) :
    ∃ t', (Content.ofTexts entries).node.decodeMapping sh start cleared (scope d) value {} =
      some ({ value := sh.setAll put entries (start value) }, t') := by
  have still : (scope d).following = [] := rfl
  have resolved : (scope d).resolve (.mapping 1 .map (entries.map textEntry)) {} =
      some ((.mapping 1 .map (entries.map textEntry), scope d), Tally.add {} false) :=
    Decoding.bind_eq (Scope.count_eq still rfl)
  obtain ⟨t', parts, decoded⟩ := foldlM_texts (t := Tally.add {} false) puts still distinct rfl
    (start value) [] [] nofun
  have unmerged : (entries.map textEntry).reverse.find? (fun entry => entry.1.isMerge) = none := by
    rw [List.find?_eq_none]
    intro entry member
    obtain ⟨e, -, rfl⟩ := List.mem_map.mp (List.mem_reverse.mp member)
    simp [textEntry, Node.isMerge]
  have whole (fuel : Nat) : decodeEntries sh (fuel + 1) (scope d) (entries.map textEntry)
        { value := start value } (Tally.add {} false) =
      some (⟨sh.setAll put entries (start value), [], parts, none⟩, t') := by
    rw [decodeEntries]
    simp only [repeatedKeys_texts distinct]
    rw [Decoding.bind_eq decoded]
    simp only [unmerged]
    rfl
  obtain ⟨fuel, enough⟩ := Nat.exists_eq_add_one_of_ne_zero
    (show (scope d).depth ≠ 0 from Nat.mul_ne_zero d.size.succ_ne_zero d.size.succ_ne_zero)
  refine ⟨t', ?_⟩
  rw [Content.node_ofTexts, Node.decodeMapping, Decoding.bind_eq resolved]
  simp only [enough]
  rw [Decoding.bind_eq (whole fuel)]
  rfl

end Shape

end Document

namespace Settings

open Document

/-- Settings with one of them replaced. -/
def put (s : Settings) (name text : Bytes) : Settings :=
  if name == Bytes.ofString "prompt" then { s with prompt := text }
  else if name == Bytes.ofString "print" then { s with print := text }
  else { s with history := text }

theorem puts : shape.Puts put := by
  intro s t value name text still direct _
  have told (value : Bytes) := Node.decodeText_str still direct 1 text value
  show decodePart s name _ value t = _
  rw [decodePart, put]
  by_cases prompt : (name == Bytes.ofString "prompt") = true
  · rw [if_pos prompt, if_pos prompt]
    exact Decoding.bind_eq (told _)
  rw [if_neg prompt, if_neg prompt]
  by_cases print : (name == Bytes.ofString "print") = true
  · rw [if_pos print, if_pos print]
    exact Decoding.bind_eq (told _)
  · rw [if_neg print, if_neg print]
    exact Decoding.bind_eq (told _)

/-- **Settings that are written are read back**: each text under the name of a setting replaces
it, and other names change nothing. -/
theorem read_written {entries : List (List Char × List Char)}
    (distinct : (entries.map Prod.fst).Nodup) (base : Settings) :
    Settings.read (encoded (Content.ofTexts entries).written) base =
      .ok ((shape.setAll put entries base).orElse base) := by
  have flat : (Content.ofTexts entries).depth ≤ Outline.maxDepth := by
    rw [Content.depth_ofTexts]
    decide
  obtain ⟨t', decoded⟩ := Shape.decodeMapping_texts puts
    ⟨some (Content.ofTexts entries).node, [], (Content.ofTexts entries).signs.length⟩ distinct
    id id base
  rw [Settings.read, read?_written _ flat, Option.bind_eq_bind, Option.bind_some, decode,
    StateT.run]
  simp only [decoded]
  rfl

end Settings

end Reckon
