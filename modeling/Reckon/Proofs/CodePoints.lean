import Reckon.Proofs.RoundTrip
import Reckon.Proofs.Spans

/-!
# Scanning keeps characters whole

The scanner looks at bytes, and a character may have several. It is not cut all the
same:

* text that is UTF-8 can be cut wherever the next byte continues no character, and
  both parts are UTF-8 (`isValid_split`);
* every piece but a stray byte starts with an ASCII byte, and ends with one, before a
  line end, or at the end of the source, so both its ends are such places
  (`placed_boundary`);
* errors of stray bytes are maximal runs of them, so the pieces next to an error are
  no stray bytes, and it ends where they do (`unexpected_boundary`).

`scan_keeps_characters` puts this together.
-/

namespace Reckon

/-! ## Characters of a text -/

namespace Utf8

/-- The bytes encode one code point. -/
def IsChar (bytes : Bytes) : Prop :=
  ∃ b tails l, bytes = b :: tails ∧ lead? b = some l ∧ l.admits tails = true

/-- At offset `i` of a text its units meet, or the text starts or ends. -/
def Boundary (text : Bytes) (i : Nat) : Prop :=
  ∃ before after, units text = before ++ after ∧ (before.flatMap TextUnit.bytes).length = i

/-- A unit of the text takes the bytes from offset `i` up to `j`. -/
def UnitAt (text : Bytes) (i j : Nat) : Prop :=
  ∃ before u after, units text = before ++ u :: after ∧
    (before.flatMap TextUnit.bytes).length = i ∧ i + u.bytes.length = j

/-- The span from `start` up to `stop` has all bytes of a unit if it has one. -/
def Whole (text : Bytes) (start stop : Nat) : Prop :=
  ∀ i j, UnitAt text i j → ∀ k, i ≤ k → k < j → start ≤ k → k < stop → start ≤ i ∧ j ≤ stop

theorem isValid_nil : isValid [] = true := by
  rw [isValid, units]
  rfl

theorem isTail_eq_false_of_ascii {b : UInt8} (ascii : b < 0x80) : isTail b = false := by
  simp only [isTail, Bool.and_eq_false_iff, decide_eq_false_iff_not]
  left
  exact UInt8.not_le.mpr ascii

theorem isTail_eq_false_of_lead {b : UInt8} {l : Lead} (lead : lead? b = some l) :
    isTail b = false := by
  refine Bool.eq_false_iff.mpr fun tail => ?_
  simp only [isTail, Bool.and_eq_true, decide_eq_true_eq] at tail
  have high : ¬ b < 0x80 := UInt8.not_lt.mpr tail.1
  have low : b < 0xC2 := UInt8.lt_of_le_of_lt tail.2 (by decide)
  rw [lead?, if_neg high, if_pos low] at lead
  cases lead

theorem isChar_ascii {b : UInt8} (ascii : b < 0x80) : IsChar [b] :=
  ⟨b, [], _, rfl, if_pos ascii, rfl⟩

theorem IsChar.ne_nil {c : Bytes} (h : IsChar c) : c ≠ [] := by
  obtain ⟨b, tails, _, rfl, _⟩ := h
  exact List.cons_ne_nil b tails

/-- Behind its first byte a character has continuing bytes only. -/
theorem IsChar.isTail {b : UInt8} {tails : Bytes} (h : IsChar (b :: tails)) :
    ∀ t ∈ tails, isTail t = true := by
  obtain ⟨_, _, l, same, _, admits⟩ := h
  cases same
  simp only [Lead.admits, Bool.and_eq_true] at admits
  exact List.all_eq_true.mp admits.1.2

theorem IsChar.units_append {c : Bytes} (h : IsChar c) :
    ∃ code, ∀ rest, units (c ++ rest) = .scalar code c :: units rest := by
  obtain ⟨b, tails, l, rfl, lead, admits⟩ := h
  have length : tails.length = l.tails := by
    simp only [Lead.admits, Bool.and_eq_true, beq_iff_eq] at admits
    exact admits.1.1
  refine ⟨l.code tails, fun rest => ?_⟩
  have taken : (tails ++ rest).take l.tails = tails := List.take_left' length
  have dropped : (tails ++ rest).drop l.tails = rest := List.drop_left' length
  rw [List.cons_append, units, lead]
  simp only [taken, dropped, if_pos admits]

theorem IsChar.isValid_append {c : Bytes} (h : IsChar c) (rest : Bytes) :
    isValid (c ++ rest) = isValid rest := by
  obtain ⟨code, cut⟩ := h.units_append
  rw [isValid, cut, List.all_cons]
  rfl

theorem exists_char {text : Bytes} (nonempty : text ≠ []) (valid : isValid text = true) :
    ∃ c rest, text = c ++ rest ∧ IsChar c ∧ isValid rest = true := by
  cases text with
  | nil => exact absurd rfl nonempty
  | cons b text =>
      rw [isValid, units] at valid
      cases lead : lead? b with
      | none =>
          rw [lead] at valid
          cases valid
      | some l =>
          rw [lead] at valid
          dsimp only at valid
          split at valid
          · next admits =>
            rw [List.all_cons] at valid
            refine ⟨b :: text.take l.tails, text.drop l.tails, ?_, ⟨b, _, l, rfl, lead, admits⟩,
              valid⟩
            rw [List.cons_append, List.take_append_drop]
          · cases valid

/-- Text that is UTF-8 does not start in the middle of a character. -/
theorem ends_isTail {text : Bytes} (valid : isValid text = true) : Source.Ends isTail text := by
  intro b head
  cases text with
  | nil => cases head
  | cons c text =>
      cases head
      obtain ⟨_, rest, split, ⟨_, _, l, rfl, lead, _⟩, _⟩ :=
        exists_char (List.cons_ne_nil b text) valid
      cases split
      exact isTail_eq_false_of_lead lead

/-- **Where UTF-8 can be cut.** If the second part does not start with a byte that
continues a character, both parts are UTF-8 and no unit reaches over the cut. -/
theorem isValid_split {s t : Bytes} (valid : isValid (s ++ t) = true)
    (ends : Source.Ends isTail t) :
    isValid s = true ∧ isValid t = true ∧ units (s ++ t) = units s ++ units t := by
  induction size : s.length using Nat.strongRecOn generalizing s with
  | ind n ih =>
      by_cases empty : s = []
      · rw [empty, List.nil_append] at valid ⊢
        refine ⟨isValid_nil, valid, ?_⟩
        rw [units, List.nil_append]
      · have nonempty : s ++ t ≠ [] := List.append_ne_nil_of_left_ne_nil empty t
        obtain ⟨c, rest, split, isChar, later⟩ := exists_char nonempty valid
        have first : c <+: s ++ t := ⟨rest, split.symm⟩
        by_cases inside : c.length ≤ s.length
        · obtain ⟨s', rfl⟩ := List.prefix_of_prefix_length_le first (List.prefix_append s t) inside
          rw [List.append_assoc] at split
          have behind := List.append_cancel_left split
          have shorter : s'.length < n := by
            have positive := List.length_pos_iff.mpr isChar.ne_nil
            rw [← size, List.length_append]
            omega
          obtain ⟨validFront, validRest, cut⟩ := ih s'.length shorter (behind ▸ later) rfl
          obtain ⟨code, taken⟩ := isChar.units_append
          refine ⟨(isChar.isValid_append s').trans validFront, validRest, ?_⟩
          rw [List.append_assoc, taken, taken, cut, List.cons_append]
        · -- what the character takes of the second part would continue it
          obtain ⟨beyond, rfl⟩ :=
            List.prefix_of_prefix_length_le (List.prefix_append s t) first (by omega)
          rw [List.append_assoc] at split
          have behind := List.append_cancel_left split
          obtain ⟨b, s, rfl⟩ := List.exists_cons_of_ne_nil empty
          cases beyond with
          | nil => simp at inside
          | cons d beyond =>
              have tail := isChar.isTail d (by simp)
              rw [ends d (by simp [behind])] at tail
              cases tail

/-- Text that is UTF-8 can be cut on either side of an ASCII byte. -/
theorem isValid_around_ascii {s t : Bytes} {b : UInt8} (valid : isValid (s ++ b :: t) = true)
    (ascii : b < 0x80) : isValid s = true ∧ isValid t = true := by
  have ends : Source.Ends isTail (b :: t) := by
    intro c head
    cases head
    exact isTail_eq_false_of_ascii ascii
  obtain ⟨front, rest, _⟩ := isValid_split valid ends
  rw [← List.singleton_append, (isChar_ascii ascii).isValid_append] at rest
  exact ⟨front, rest⟩

theorem boundary_zero (text : Bytes) : Boundary text 0 := ⟨[], units text, rfl, rfl⟩

theorem boundary_length (text : Bytes) : Boundary text text.length := by
  refine ⟨units text, [], (List.append_nil _).symm, ?_⟩
  rw [flatMap_bytes_units]

theorem boundary_of_ends {s t : Bytes} (valid : isValid (s ++ t) = true)
    (ends : Source.Ends isTail t) : Boundary (s ++ t) s.length := by
  obtain ⟨_, _, cut⟩ := isValid_split valid ends
  refine ⟨units s, units t, cut, ?_⟩
  rw [flatMap_bytes_units]

/-- No boundary lies inside a unit. -/
theorem Boundary.outside {text : Bytes} {i j k : Nat} (h : Boundary text k)
    (unit : UnitAt text i j) : k ≤ i ∨ j ≤ k := by
  obtain ⟨before, after, cut, rfl⟩ := h
  obtain ⟨before', u, after', cut', rfl, rfl⟩ := unit
  rw [cut'] at cut
  rcases List.append_eq_append_iff.mp cut with ⟨more, rfl, same⟩ | ⟨more, rfl, _⟩
  · -- between the boundary and the units before the unit there is nothing, or the unit
    cases more with
    | nil =>
        left
        rw [List.append_nil]
    | cons v more =>
        right
        cases same
        simp only [List.flatMap_append, List.flatMap_cons, List.length_append]
        omega
  · left
    rw [List.flatMap_append, List.length_append]
    omega

theorem whole_of_boundary {text : Bytes} {start stop : Nat} (first : Boundary text start)
    (last : Boundary text stop) : Whole text start stop := by
  intro i j unit k low high from_start to_stop
  have := first.outside unit
  have := last.outside unit
  omega

end Utf8

/-! ## Ends of pieces -/

namespace Source

open Bytes (DigitRun)
open Utf8 (isValid isTail Boundary Whole)

theorem ascii_of_isWordByte {b : UInt8} (h : isWordByte b = true) : b < 0x80 := by
  have codes : Ascii.smallZ.toNat = 122 ∧ Ascii.capitalZ.toNat = 90 ∧ Ascii.nine.toNat = 57 ∧
      Ascii.underscore.toNat = 95 ∧ (0x80 : UInt8).toNat = 128 := by decide
  simp only [isWordByte, isLetter, Bytes.isDigit, Bool.or_eq_true, Bool.and_eq_true,
    decide_eq_true_eq, beq_iff_eq, UInt8.le_iff_toNat_le, ← UInt8.toNat_inj] at h
  rw [UInt8.lt_iff_toNat_lt]
  omega

theorem ascii_of_opener {b : UInt8} (h : b ∈ openers) : b < 0x80 := by
  have table : openers.all (fun b => b < 0x80) = true := by decide
  exact of_decide_eq_true (List.all_eq_true.mp table b h)

theorem ascii_of_isBlank {b : UInt8} (h : isBlank b = true) : b < 0x80 := by
  have table : [Ascii.space, Ascii.carriageReturn, Ascii.tab, Ascii.newline].all
      (fun b => b < 0x80) = true := by decide
  exact of_decide_eq_true (List.all_eq_true.mp table b (isBlank_iff.mp h))

/-- Only comments, strings and stray bytes can have other bytes than those of ASCII. -/
theorem ascii_or_of_proper {p : Piece} (proper : p.Proper) :
    (∀ b ∈ p.bytes, b < 0x80) ∨ (∃ body, p = .text body) ∨ (∃ body, p = .comment body) ∨
      (∃ body, p = .unclosed body) ∨ ∃ b, p = .stray b := by
  cases p with
  | text body => exact .inr (.inl ⟨body, rfl⟩)
  | comment body => exact .inr (.inr (.inl ⟨body, rfl⟩))
  | unclosed body => exact .inr (.inr (.inr (.inl ⟨body, rfl⟩)))
  | stray b => exact .inr (.inr (.inr (.inr ⟨b, rfl⟩)))
  | blank c =>
      left
      intro b member
      rw [List.mem_singleton.mp member]
      exact ascii_of_isBlank proper
  | symbol kind lexeme =>
      left
      intro b member
      exact ascii_of_opener (Grammar.mem_openers_of_isSymbol proper b member)
  | word spelling =>
      left
      intro b member
      obtain ⟨c, tail, rfl, letter, all⟩ := proper
      rcases List.mem_cons.mp member with rfl | later
      · exact ascii_of_isWordByte (by simp [isWordByte, letter])
      · exact ascii_of_isWordByte (all b later)
  | numeral whole fraction =>
      left
      intro b member
      have digits : ∀ {run : Bytes}, DigitRun run → b ∈ run → b < 0x80 := by
        intro run isRun inside
        exact ascii_of_isWordByte (by simp [isWordByte, isRun.2 b inside])
      cases fraction with
      | none => exact digits proper.1 member
      | some fraction =>
          rcases List.mem_append.mp member with inWhole | behind
          · exact digits proper.1 inWhole
          · rcases List.mem_cons.mp behind with rfl | inFraction
            · decide
            · exact digits (proper.2 fraction rfl) inFraction

/-- Pieces other than stray bytes cut no character. -/
theorem ends_around {p : Piece} {before rest : Bytes}
    (valid : isValid (before ++ (p.bytes ++ rest)) = true) (proper : p.Proper)
    (stops : p.StopsAt rest) (solid : ∀ b, p ≠ .stray b) :
    Ends isTail (p.bytes ++ rest) ∧ Ends isTail rest := by
  have starts : ∀ {b : UInt8} {more : Bytes}, b < 0x80 → Ends isTail (b :: more) := by
    intro b more ascii c head
    cases head
    exact Utf8.isTail_eq_false_of_ascii ascii
  have behind : ∀ {front : Bytes} {b : UInt8}, p.bytes = front ++ [b] → b < 0x80 →
      Ends isTail rest := by
    intro front b last ascii
    rw [last, List.append_assoc, ← List.append_assoc, List.singleton_append] at valid
    exact Utf8.ends_isTail (Utf8.isValid_around_ascii valid ascii).2
  rcases ascii_or_of_proper proper with ascii | ⟨body, rfl⟩ | ⟨body, rfl⟩ | ⟨body, rfl⟩ | ⟨b, rfl⟩
  · have nonempty := (role_of_proper proper stops).ne_nil
    refine ⟨?_, behind (List.dropLast_concat_getLast nonempty).symm
      (ascii _ (List.getLast_mem nonempty))⟩
    obtain ⟨b, more, bytes⟩ := List.exists_cons_of_ne_nil nonempty
    rw [bytes] at ascii ⊢
    exact starts (ascii b List.mem_cons_self)
  · exact ⟨starts (by decide), behind rfl (by decide)⟩
  · refine ⟨starts (by decide), fun b head => ?_⟩
    -- a comment ends before a line end
    have newline : b = Ascii.newline := by simpa using stops b head
    rw [newline]
    decide
  · have nothing : rest = [] := stops
    refine ⟨starts (by decide), fun b head => ?_⟩
    rw [nothing] at head
    cases head
  · exact absurd rfl (solid b)

section Pieces

variable {source : Bytes} (valid : isValid source = true) {placed : Placed}
  (member : placed ∈ place 0 1 (pieces source)) (solid : ∀ b, placed.piece ≠ .stray b)
include valid member solid

theorem placed_boundary : Boundary source placed.start ∧ Boundary source placed.stop := by
  obtain ⟨before, rest, split, offset, _, proper, stops⟩ := exists_cut member
  rw [split] at valid
  obtain ⟨ends, behind⟩ := ends_around valid proper stops solid
  have first := Utf8.boundary_of_ends valid ends
  rw [← List.append_assoc] at valid
  have last := Utf8.boundary_of_ends valid behind
  rw [List.append_assoc, ← split, List.length_append] at last
  rw [← split] at first
  rw [Placed.stop, offset, Nat.zero_add]
  exact ⟨first, last⟩

theorem placed_isValid : isValid placed.piece.bytes = true := by
  obtain ⟨before, rest, split, _, _, proper, stops⟩ := exists_cut member
  rw [split] at valid
  obtain ⟨ends, behind⟩ := ends_around valid proper stops solid
  exact (Utf8.isValid_split (Utf8.isValid_split valid ends).2.1 behind).1

end Pieces

/-! ## Ends of errors -/

theorem exists_placed_at {ps : List Piece} {start i : Nat} (line : Nat) (low : start ≤ i)
    (high : i < start + (ps.flatMap Piece.bytes).length) :
    ∃ placed ∈ place start line ps, placed.start ≤ i ∧ i < placed.stop := by
  induction ps generalizing start line with
  | nil =>
      simp only [List.flatMap_nil, List.length_nil] at high
      omega
  | cons p rest ih =>
      by_cases here : i < start + p.bytes.length
      · exact ⟨_, List.mem_cons_self, low, here⟩
      · rw [List.flatMap_cons, List.length_append] at high
        obtain ⟨placed, member, around⟩ := ih _ (Nat.le_of_not_lt here) (by omega)
        exact ⟨placed, List.mem_cons_of_mem _ member, around⟩

/-- Every byte of a source that is no stray byte lies in a piece that cuts no
character. -/
theorem exists_boundaries {source : Bytes} (valid : isValid source = true) {i : Nat}
    (inside : i < source.length) (notStray : ¬ StrayAt source i) :
    ∃ placed ∈ place 0 1 (pieces source), placed.start ≤ i ∧ i < placed.stop ∧
      Boundary source placed.start ∧ Boundary source placed.stop := by
  rw [← flatMap_bytes_pieces source, ← Nat.zero_add (List.length _)] at inside
  obtain ⟨placed, member, low, high⟩ := exists_placed_at 1 (Nat.zero_le i) inside
  have solid : ∀ b, placed.piece ≠ .stray b := by
    intro b stray
    have stop := (placed_stray_span member stray).1
    have same : placed.start = i := by omega
    exact notStray (same ▸ strayAt_of_placed member stray)
  obtain ⟨first, last⟩ := placed_boundary valid member solid
  exact ⟨placed, member, low, high, first, last⟩

theorem unexpected_boundary {source : Bytes} (valid : isValid source = true) {start stop : Nat}
    (nonempty : start < stop) (inside : stop ≤ source.length)
    (run : MaximalRun (StrayAt source) start stop) :
    Boundary source start ∧ Boundary source stop := by
  constructor
  · -- the piece before the run ends where the run starts
    cases start with
    | zero => exact Utf8.boundary_zero source
    | succ i =>
        obtain ⟨q, member, low, high, _, last⟩ :=
          exists_boundaries valid (i := i) (by omega) (run.before i (by omega))
        obtain ⟨p, member', start, _⟩ :=
          (run.all (i + 1) (Int.le_refl _) (by omega)).exists_placed
        have positive := (placed_inside member').1
        have meet : q.stop = i + 1 := by
          rcases eq_or_of_pairwise (pairwise_place _ 0 1) member member' with rfl | order | order
          · omega
          · omega
          · omega
        exact meet ▸ last
  · by_cases ended : stop = source.length
    · rw [ended]
      exact Utf8.boundary_length source
    · obtain ⟨q, member, low, high, first, _⟩ :=
        exists_boundaries valid (i := stop) (by omega) (run.behind stop rfl)
      obtain ⟨p, member', start', b, stray⟩ :=
        (run.all (stop - 1) (by omega) (by omega)).exists_placed
      have stop' := (placed_stray_span member' stray).1
      have meet : q.start = stop := by
        rcases eq_or_of_pairwise (pairwise_place _ 0 1) member member' with rfl | order | order
        · omega
        · omega
        · omega
      exact meet ▸ first

theorem unterminated_boundary {source : Bytes} (valid : isValid source = true) {i : Nat}
    (quote : source[i]? = some Ascii.quote) : Boundary source i := by
  have inside : i ≤ source.length := Nat.le_of_lt (List.getElem?_eq_some_iff.mp quote).1
  have ends : Ends isTail (source.drop i) := by
    intro b head
    rw [List.head?_drop, quote] at head
    cases head
    decide
  have cut := List.take_append_drop i source
  rw [← cut] at valid
  have boundary := Utf8.boundary_of_ends valid ends
  rwa [cut, List.length_take, Nat.min_eq_left inside] at boundary

theorem error_boundary {source : Bytes} (valid : isValid source = true) {e : ScanError}
    (member : e ∈ errors source) :
    ∃ start stop : Nat, e.start = start ∧ e.stop = stop ∧ Boundary source start ∧
      Boundary source stop := by
  have inside := error_inside member
  obtain ⟨start, first⟩ := Int.eq_ofNat_of_zero_le inside.1
  obtain ⟨stop, last⟩ := Int.eq_ofNat_of_zero_le (by omega : 0 ≤ e.stop)
  refine ⟨start, stop, first, last, ?_⟩
  rcases error_message member with message | message
  · have run := maximalRun_of_unexpected member message
    rw [first, last] at run
    exact unexpected_boundary valid (by omega) (by omega) run
  · have isOpen := openError_of_unterminated member message
    have stopped : stop = source.length := by
      have := isOpen.stop
      omega
    refine ⟨?_, stopped ▸ Utf8.boundary_length source⟩
    have quote := isOpen.quote
    rw [first, Int.toNat_natCast] at quote
    exact unterminated_boundary valid quote

/-! ## Scanned characters -/

/-- What scanning does to the characters of a source. -/
structure KeepsCharacters (source : Bytes) : Prop where
  lexemes : ∀ t ∈ tokens source, isValid t.lexeme = true
  texts : ∀ t ∈ tokens source, ∀ body, t.payload = .text body → isValid body = true
  /-- Errors start and stop where characters meet, and have all of a character or
  nothing. -/
  errors : ∀ e ∈ errors source, ∃ start stop : Nat, e.start = start ∧ e.stop = stop ∧
    Boundary source start ∧ Boundary source stop ∧ Whole source start stop
  /-- So do the spans of tokens. -/
  spans : ∀ placed ∈ place 0 1 (pieces source), placed.token? ≠ none →
    Boundary source placed.start ∧ Boundary source placed.stop ∧
      Whole source placed.start placed.stop

theorem placed_of_mem_tokens {source : Bytes} {t : Token} (member : t ∈ tokens source) :
    t = endToken source ∨ ∃ placed ∈ place 0 1 (pieces source), placed.token? = some t := by
  rcases List.mem_append.mp member with front | last
  · exact .inr (List.mem_filterMap.mp front)
  · exact .inl (List.mem_singleton.mp last)

theorem solid_of_token {placed : Placed} (token : placed.token? ≠ none) (b : UInt8) :
    placed.piece ≠ .stray b := by
  intro stray
  rw [Placed.token?, stray] at token
  exact token rfl

theorem eq_text_of_meaning {p : Piece} {kind : Kind} {body : Bytes}
    (meaning : p.meaning? = some (kind, .text body)) : p = .text body := by
  cases p with
  | text body' =>
      cases meaning
      rfl
  | blank | comment | symbol | word | numeral | stray | unclosed => cases meaning

/-- **Scanning keeps characters whole.** In a source that is UTF-8 the lexemes and the
texts of all tokens are UTF-8, and no error and no token has a part of a character
only. -/
theorem scan_keeps_characters (source : Bytes) (valid : isValid source = true) :
    KeepsCharacters source where
  lexemes t member := by
    rcases placed_of_mem_tokens member with rfl | ⟨placed, inside, token⟩
    · exact Utf8.isValid_nil
    · have solid := solid_of_token (token ▸ Option.some_ne_none t)
      obtain ⟨_, _, rfl⟩ := Option.map_eq_some_iff.mp token
      exact placed_isValid valid inside solid
  texts t member body payload := by
    rcases placed_of_mem_tokens member with rfl | ⟨placed, inside, token⟩
    · cases payload
    · have solid := solid_of_token (token ▸ Option.some_ne_none t)
      have lexeme := placed_isValid valid inside solid
      obtain ⟨⟨kind, _⟩, meaning, rfl⟩ := Option.map_eq_some_iff.mp token
      cases payload
      -- the body stands between the quotes of the lexeme
      have quoted : placed.piece.bytes = [] ++ Ascii.quote :: (body ++ [Ascii.quote]) := by
        rw [eq_text_of_meaning meaning]
        rfl
      rw [quoted] at lexeme
      have behind := (Utf8.isValid_around_ascii lexeme (by decide)).2
      exact (Utf8.isValid_around_ascii behind (by decide)).1
  errors e member := by
    obtain ⟨start, stop, first, last, boundary, boundary'⟩ := error_boundary valid member
    exact ⟨start, stop, first, last, boundary, boundary',
      Utf8.whole_of_boundary boundary boundary'⟩
  spans placed member token := by
    obtain ⟨first, last⟩ := placed_boundary valid member (solid_of_token token)
    exact ⟨first, last, Utf8.whole_of_boundary first last⟩

/-- Characters of two, three and four bytes: stray between tokens and beside an ASCII
byte that is stray as well, in a string, in a comment, and in a string that is left
open. -/
theorem scan_keeps_characters_sample :
    let source := Bytes.ofString "é@日; \"𝄞é\" // 日\nx日 \"é"
    isValid source = true ∧ KeepsCharacters source := by
  intro source
  have valid : isValid source = true := by decide +kernel
  exact ⟨valid, scan_keeps_characters source valid⟩

end Source

end Reckon
