import Mathlib.Data.List.Pairwise
import Reckon.Proofs.Factoring

/-!
# Scan errors are maximal spans

An offending piece is reported by itself at first, and errors that continue one
another are then joined. What comes of it is determined by the source alone:

* a piece stands where the pieces before it end, on the line that this gives it
  (`exists_cut`), so an error that is not joined yet is one stray byte or all that
  is left behind an open quote (`rawError_cases`);
* joining keeps the positions that are covered, and what touches after it differs in
  its message (`joinOf_joinRuns`, `joinRuns_apart`);
* so the errors of stray bytes are the maximal runs of stray bytes, and an open
  string is the last error (`errors_spans`).
-/

namespace Reckon.Source

/-- What is said about a byte that starts nothing. -/
def unexpected : Bytes := Bytes.ofString "Unexpected character."

/-- What is said about a string that is left open. -/
def unterminated : Bytes := Bytes.ofString "Unterminated string."

/-- At offset `i` a piece starts, and it starts with a byte that is no blank and that
no token, comment or string starts with. -/
def StrayAt (source : Bytes) (i : Nat) : Prop :=
  (∃ placed ∈ place 0 1 (pieces source), placed.start = i) ∧
    ∃ b, source[i]? = some b ∧ b ∉ openers ∧ isBlank b = false ∧ b ≠ Ascii.quote ∧
      isWordByte b = false

/-! ## Where pieces stand -/

/-- A placed piece cuts the source: what stands before it gives it its offset and its
line, and nothing behind it continues it. -/
theorem exists_cut {source : Bytes} {start line : Nat} {placed : Placed}
    (member : placed ∈ place start line (pieces source)) :
    ∃ before rest, source = before ++ (placed.piece.bytes ++ rest) ∧
      placed.start = start + before.length ∧
      placed.line = line + Bytes.lineEnds before + Bytes.lineEnds placed.piece.bytes ∧
      placed.piece.Proper ∧ placed.piece.StopsAt rest := by
  fun_induction pieces source generalizing start line with
  | case1 => cases member
  | case2 b rest ih =>
      have proper := proper_leading b rest
      have stops := stopsAt_leading b rest
      have whole := bytes_leading b rest
      generalize (leading b rest).1 = p, (leading b rest).2 = after at *
      rcases List.mem_cons.mp member with rfl | later
      · exact ⟨[], after, by rw [List.nil_append, whole], rfl, by simp [Bytes.lineEnds], proper,
          stops⟩
      · obtain ⟨before, rest', split, offset, lines, proper', stops'⟩ := ih later
        refine ⟨p.bytes ++ before, rest', ?_, ?_, ?_, proper', stops'⟩
        · rw [← whole, split, List.append_assoc]
        · simp only [offset, List.length_append]
          omega
        · simp only [lines, Bytes.lineEnds_append]
          omega

theorem start_le_of_mem_place {ps : List Piece} {start line : Nat} {placed : Placed}
    (member : placed ∈ place start line ps) : start ≤ placed.start := by
  induction ps generalizing start line with
  | nil => cases member
  | cons p rest ih =>
      rcases List.mem_cons.mp member with rfl | later
      · exact Nat.le_refl _
      · have := ih later
        omega

/-- Pieces come one behind another. -/
theorem pairwise_place (ps : List Piece) (start line : Nat) :
    (place start line ps).Pairwise fun p q => p.stop ≤ q.start := by
  induction ps generalizing start line with
  | nil => exact .nil
  | cons p rest ih =>
      refine List.pairwise_cons.mpr ⟨?_, ih _ _⟩
      intro q member
      exact start_le_of_mem_place member

theorem eq_or_of_pairwise {α : Type} {R : α → α → Prop} {l : List α} (h : l.Pairwise R) {a b : α}
    (ha : a ∈ l) (hb : b ∈ l) : a = b ∨ R a b ∨ R b a := by
  have symm : Std.Symm fun a b => a = b ∨ R a b ∨ R b a :=
    ⟨fun a b related => by
      rcases related with rfl | forth | back
      · exact .inl rfl
      · exact .inr (.inr forth)
      · exact .inr (.inl back)⟩
  have weaker : l.Pairwise fun a b => a = b ∨ R a b ∨ R b a := h.imp fun r => .inr (.inl r)
  exact weaker.forall_of_forall (fun _ _ => .inl rfl) ha hb

section Placement

variable {source : Bytes} {placed : Placed} (member : placed ∈ place 0 1 (pieces source))
include member

theorem placed_inside : placed.start < placed.stop ∧ placed.stop ≤ source.length := by
  obtain ⟨before, rest, split, offset, _, proper, stops⟩ := exists_cut member
  have positive := List.length_pos_iff.mpr (role_of_proper proper stops).ne_nil
  have lengths := congrArg List.length split
  simp only [List.length_append] at lengths
  simp only [Placed.stop]
  omega

theorem placed_line : placed.line = 1 + Bytes.lineEnds (source.take placed.stop) := by
  obtain ⟨before, rest, split, offset, lines, _, _⟩ := exists_cut member
  have cut : source.take placed.stop = before ++ placed.piece.bytes := by
    rw [split, ← List.append_assoc]
    refine List.take_left' ?_
    simp [Placed.stop, offset]
  rw [lines, cut, Bytes.lineEnds_append]
  omega

/-- The byte at which a piece starts decides whether it is a stray byte. -/
theorem placed_stray_iff {b : UInt8} : placed.piece = .stray b ↔
    source[placed.start]? = some b ∧ b ∉ openers ∧ isBlank b = false ∧ b ≠ Ascii.quote ∧
      isWordByte b = false := by
  obtain ⟨before, rest, split, offset, _, proper, stops⟩ := exists_cut member
  have here : source[placed.start]? = (placed.piece.bytes ++ rest)[0]? := by
    rw [split, offset, Nat.zero_add, List.getElem?_append_right (Nat.le_refl _), Nat.sub_self]
  rw [here]
  constructor
  · intro stray
    rw [stray] at proper ⊢
    exact ⟨rfl, proper⟩
  · rintro ⟨first, startsNothing⟩
    -- the scanner cuts the same text into the piece and into the stray byte
    have cut := pieces_append proper stops
    cases text : placed.piece.bytes ++ rest with
    | nil =>
        rw [text] at first
        cases first
    | cons c more =>
        rw [text] at first cut
        cases first
        rw [pieces_of_leading (leading_stray startsNothing more)] at cut
        exact (List.head_eq_of_cons_eq cut).symm

theorem placed_stray_span {b : UInt8} (stray : placed.piece = .stray b) :
    placed.stop = placed.start + 1 ∧
      placed.line = 1 + Bytes.lineEnds (source.take placed.start) := by
  obtain ⟨before, rest, split, offset, lines, proper, _⟩ := exists_cut member
  have cut : source.take placed.start = before := by
    rw [split]
    exact List.take_left' (by omega)
  have noEnd : Bytes.lineEnds placed.piece.bytes = 0 := by
    rw [stray] at proper ⊢
    refine List.count_eq_zero.mpr fun newline => ?_
    have blank := proper.2.1
    rw [← List.mem_singleton.mp newline] at blank
    cases blank
  refine ⟨by rw [Placed.stop, stray]; rfl, ?_⟩
  rw [lines, cut, noEnd, Nat.add_zero]

theorem placed_unclosed {body : Bytes} (isOpen : placed.piece = .unclosed body) :
    placed.stop = source.length ∧ source[placed.start]? = some Ascii.quote ∧
      ∀ j, placed.start < j → source[j]? ≠ some Ascii.quote := by
  obtain ⟨before, rest, split, offset, _, proper, stops⟩ := exists_cut member
  rw [isOpen] at split proper stops
  have nothing : rest = [] := stops
  have unquoted : Ascii.quote ∉ body := proper
  have whole : source = before ++ Ascii.quote :: body := by
    rw [split, nothing, List.append_nil]
    rfl
  rw [Nat.zero_add] at offset
  refine ⟨?_, ?_, ?_⟩
  · rw [Placed.stop, isOpen, whole, offset, List.length_append]
    rfl
  · rw [whole, offset, List.getElem?_append_right (Nat.le_refl _), Nat.sub_self]
    rfl
  · intro j behind quote
    rw [whole, List.getElem?_append_right (by omega), List.getElem?_cons,
      if_neg (by omega)] at quote
    exact unquoted (List.mem_of_getElem? quote)

/-- No token stands at or behind a quote that is left open. -/
theorem token_before_unclosed {body : Bytes} (isOpen : placed.piece = .unclosed body)
    {other : Placed} (member' : other ∈ place 0 1 (pieces source)) (token : other.token? ≠ none) :
    other.start < placed.start := by
  have inside := placed_inside member'
  obtain ⟨last, _⟩ := placed_unclosed member isOpen
  rcases eq_or_of_pairwise (pairwise_place _ 0 1) member member' with rfl | before | behind
  · simp [Placed.token?, isOpen, Piece.meaning?] at token
  · omega
  · omega

end Placement

theorem StrayAt.exists_placed {source : Bytes} {i : Nat} (h : StrayAt source i) :
    ∃ placed ∈ place 0 1 (pieces source), placed.start = i ∧ ∃ b, placed.piece = .stray b := by
  obtain ⟨⟨placed, member, rfl⟩, b, byte⟩ := h
  exact ⟨placed, member, rfl, b, (placed_stray_iff member).mpr byte⟩

theorem strayAt_of_placed {source : Bytes} {placed : Placed} {b : UInt8}
    (member : placed ∈ place 0 1 (pieces source)) (stray : placed.piece = .stray b) :
    StrayAt source placed.start :=
  ⟨⟨placed, member, rfl⟩, b, (placed_stray_iff member).mp stray⟩

/-! ## Errors before they are joined -/

/-- The errors of a source, one for each offending piece. -/
def rawErrors (source : Bytes) : List ScanError :=
  (place 0 1 (pieces source)).filterMap Placed.error?

/-- An error of one stray byte, at offset `i`. -/
structure StrayError (source : Bytes) (e : ScanError) (i : Nat) : Prop where
  message : e.message = unexpected
  start : e.start = i
  stop : e.stop = i + 1
  stray : StrayAt source i
  line : e.line = (1 + Bytes.lineEnds (source.take i) : Nat)

/-- An error of a string that is left open by a quote at offset `i`. -/
structure OpenError (source : Bytes) (e : ScanError) (i : Nat) : Prop where
  message : e.message = unterminated
  start : e.start = i
  stop : e.stop = source.length
  inside : i < source.length
  line : e.line = (1 + Bytes.lineEnds source : Nat)
  quote : source[i]? = some Ascii.quote
  unclosed : ∀ j, i < j → source[j]? ≠ some Ascii.quote
  tokens : ∀ placed ∈ place 0 1 (pieces source), placed.token? ≠ none → placed.start < i

theorem mem_rawErrors {source : Bytes} {e : ScanError} : e ∈ rawErrors source ↔
    ∃ placed ∈ place 0 1 (pieces source), ∃ message, placed.piece.complaint? = some message ∧
      e = ⟨placed.line, placed.start, placed.stop, message⟩ := by
  simp only [rawErrors, List.mem_filterMap, Placed.error?, Option.map_eq_some_iff,
    eq_comm (b := e)]

theorem rawError_cases {source : Bytes} {e : ScanError} (h : e ∈ rawErrors source) :
    (∃ i, StrayError source e i) ∨ ∃ i, OpenError source e i := by
  obtain ⟨placed, member, message, complaint, rfl⟩ := mem_rawErrors.mp h
  cases kind : placed.piece with
  | blank | comment | symbol | word | numeral | text =>
      rw [kind] at complaint
      cases complaint
  | stray b =>
      rw [kind] at complaint
      cases complaint
      obtain ⟨stop, line⟩ := placed_stray_span member kind
      exact .inl ⟨placed.start, rfl, rfl, congrArg Nat.cast stop, strayAt_of_placed member kind,
        congrArg Nat.cast line⟩
  | unclosed body =>
      rw [kind] at complaint
      cases complaint
      obtain ⟨stop, quote, unclosed⟩ := placed_unclosed member kind
      have inside := placed_inside member
      have line := placed_line member
      rw [stop, List.take_length] at line
      exact .inr ⟨placed.start, rfl, rfl, congrArg Nat.cast stop, by omega,
        congrArg Nat.cast line, quote, unclosed, fun other => token_before_unclosed member kind⟩

theorem StrayAt.exists_rawError {source : Bytes} {i : Nat} (h : StrayAt source i) :
    ∃ e ∈ rawErrors source, StrayError source e i := by
  obtain ⟨placed, member, rfl, b, kind⟩ := h.exists_placed
  obtain ⟨stop, line⟩ := placed_stray_span member kind
  refine ⟨_, mem_rawErrors.mpr ⟨placed, member, unexpected, by rw [kind]; rfl, rfl⟩, ?_⟩
  exact ⟨rfl, rfl, congrArg Nat.cast stop, h, congrArg Nat.cast line⟩

theorem messages_differ : unexpected ≠ unterminated := by decide

theorem strayError_of_message {source : Bytes} {e : ScanError} (h : e ∈ rawErrors source)
    (message : e.message = unexpected) : ∃ i, StrayError source e i := by
  rcases rawError_cases h with stray | ⟨i, isOpen⟩
  · exact stray
  · exact absurd (message.symm.trans isOpen.message) messages_differ

theorem openError_of_message {source : Bytes} {e : ScanError} (h : e ∈ rawErrors source)
    (message : e.message = unterminated) : ∃ i, OpenError source e i := by
  rcases rawError_cases h with ⟨i, stray⟩ | isOpen
  · exact absurd (stray.message.symm.trans message) messages_differ
  · exact isOpen

theorem rawError_inside {source : Bytes} {e : ScanError} (h : e ∈ rawErrors source) :
    0 ≤ e.start ∧ e.start < e.stop ∧ e.stop ≤ source.length := by
  obtain ⟨placed, member, message, _, rfl⟩ := mem_rawErrors.mp h
  have inside := placed_inside member
  simp only
  omega

/-- Errors that are not joined come in order, and those that touch and say the same
are on one line. -/
theorem rawErrors_ordered (source : Bytes) : (rawErrors source).Pairwise fun e f =>
    e.stop ≤ f.start ∧ (e.stop = f.start → e.message = f.message → e.line = f.line) := by
  have ordered : (rawErrors source).Pairwise fun e f => e.stop ≤ f.start := by
    refine List.Pairwise.filterMap _ ?_ (pairwise_place (pieces source) 0 1)
    intro p q behind e first f second
    obtain ⟨_, _, rfl⟩ := Option.map_eq_some_iff.mp first
    obtain ⟨_, _, rfl⟩ := Option.map_eq_some_iff.mp second
    exact Int.ofNat_le.mpr behind
  refine ordered.imp_of_mem ?_
  intro e f first second order
  refine ⟨order, fun touch same => ?_⟩
  rcases rawError_cases first with ⟨i, stray⟩ | ⟨i, isOpen⟩
  · obtain ⟨j, stray'⟩ := strayError_of_message second (same.symm.trans stray.message)
    -- the second byte stands just behind the first, which ends no line
    have next : j = i + 1 := by
      have := stray.stop
      have := stray'.start
      omega
    obtain ⟨_, b, byte, _, blank, _⟩ := stray.stray
    have newline : b ≠ Ascii.newline := by
      rintro rfl
      cases blank
    have taken : source.take (i + 1) = source.take i ++ [b] := by
      rw [List.take_add_one, byte]
      rfl
    rw [stray.line, stray'.line, next, taken, Bytes.lineEnds_append]
    simp [Bytes.lineEnds, newline]
  · -- nothing stands behind a string that is left open
    have inside := rawError_inside second
    have := isOpen.stop
    omega

/-! ## Joining -/

/-- Spans in order, of which two that touch say different things. -/
def Apart (e f : ScanError) : Prop := e.stop ≤ f.start ∧ (e.stop = f.start → e.message ≠ f.message)

theorem joinRuns_cons_head {e f : ScanError} {rest more : List ScanError}
    (h : ScanError.joinRuns (e :: rest) = f :: more) :
    f.line = e.line ∧ f.start = e.start ∧ f.message = e.message := by
  rw [ScanError.joinRuns] at h
  split at h
  · cases h
    exact ⟨rfl, rfl, rfl⟩
  · split at h
    · cases h
      exact ⟨rfl, rfl, rfl⟩
    · cases h
      exact ⟨rfl, rfl, rfl⟩

theorem continues_iff {e f : ScanError} : ScanError.continues e f = true ↔
    e.line = f.line ∧ e.stop = f.start ∧ e.message = f.message := by
  simp [ScanError.continues, and_assoc]

theorem joinRuns_proper {errors : List ScanError} (proper : ∀ e ∈ errors, e.start < e.stop) :
    ∀ e ∈ ScanError.joinRuns errors, e.start < e.stop := by
  fun_induction ScanError.joinRuns errors with
  | case1 => exact proper
  | case2 first rest joined ih =>
      intro e member
      rw [List.mem_singleton.mp member]
      exact proper first List.mem_cons_self
  | case3 first rest f more joined touch ih =>
      have here := proper first List.mem_cons_self
      have later := ih fun e member => proper e (List.mem_cons_of_mem _ member)
      rw [joined] at later
      have next := later f List.mem_cons_self
      obtain ⟨_, adjoin, _⟩ := continues_iff.mp touch
      intro e member
      rcases List.mem_cons.mp member with rfl | inMore
      · show first.start < f.stop
        omega
      · exact later e (List.mem_cons_of_mem _ inMore)
  | case4 first rest f more joined untouched ih =>
      have later := ih fun e member => proper e (List.mem_cons_of_mem _ member)
      rw [joined] at later
      intro e member
      rcases List.mem_cons.mp member with rfl | behind
      · exact proper _ List.mem_cons_self
      · exact later e behind

/-- What is left to touch after joining says different things. -/
theorem joinRuns_apart {errors : List ScanError} (proper : ∀ e ∈ errors, e.start < e.stop)
    (ordered : errors.Pairwise fun e f =>
      e.stop ≤ f.start ∧ (e.stop = f.start → e.message = f.message → e.line = f.line)) :
    (ScanError.joinRuns errors).Pairwise Apart := by
  fun_induction ScanError.joinRuns errors with
  | case1 => exact .nil
  | case2 first rest joined ih => exact List.pairwise_singleton _ _
  | case3 first rest f more joined touch ih =>
      obtain ⟨_, order⟩ := List.pairwise_cons.mp ordered
      have apart := ih (fun e member => proper e (List.mem_cons_of_mem _ member)) order
      rw [joined] at apart
      obtain ⟨behind, later⟩ := List.pairwise_cons.mp apart
      obtain ⟨_, _, message⟩ := continues_iff.mp touch
      refine List.pairwise_cons.mpr ⟨?_, later⟩
      intro g member
      -- the joined span ends where the swallowed one did, and tells the same
      obtain ⟨order', differ⟩ := behind g member
      refine ⟨order', fun meet => ?_⟩
      show first.message ≠ g.message
      rw [message]
      exact differ meet
  | case4 first rest f more joined untouched ih =>
      obtain ⟨ahead, order⟩ := List.pairwise_cons.mp ordered
      have properRest : ∀ e ∈ rest, e.start < e.stop :=
        fun e member => proper e (List.mem_cons_of_mem _ member)
      have apart := ih properRest order
      have positive := joinRuns_proper properRest
      rw [joined] at apart positive
      obtain ⟨behind, _⟩ := List.pairwise_cons.mp apart
      have next := positive f List.mem_cons_self
      -- the next span starts as the error behind `first` does
      cases rest with
      | nil => cases joined
      | cons r rest =>
          obtain ⟨line, start, message⟩ := joinRuns_cons_head joined
          obtain ⟨le, same⟩ := ahead r List.mem_cons_self
          refine List.pairwise_cons.mpr ⟨?_, apart⟩
          intro g member
          rcases List.mem_cons.mp member with rfl | inMore
          · refine ⟨by omega, fun meet equal => untouched ?_⟩
            have touch : first.stop = r.start := by omega
            have lines := same touch (equal.trans message)
            exact continues_iff.mpr ⟨lines.trans line.symm, meet, equal⟩
          · have := (behind g inMore).1
            exact ⟨by omega, fun meet => by omega⟩

/-- `JoinOf errors wide`: the error `wide` is joined from some of `errors`, all of
which say what it says. -/
structure JoinOf (errors : List ScanError) (wide : ScanError) : Prop where
  first : ∃ e ∈ errors, e.line = wide.line ∧ e.start = wide.start ∧ e.message = wide.message
  last : ∃ e ∈ errors, e.stop = wide.stop ∧ e.message = wide.message
  between : ∀ i, wide.start ≤ i → i < wide.stop →
    ∃ e ∈ errors, e.message = wide.message ∧ e.start ≤ i ∧ i < e.stop

theorem JoinOf.single (e : ScanError) (rest : List ScanError) : JoinOf (e :: rest) e where
  first := ⟨e, List.mem_cons_self, rfl, rfl, rfl⟩
  last := ⟨e, List.mem_cons_self, rfl, rfl⟩
  between _ low high := ⟨e, List.mem_cons_self, rfl, low, high⟩

theorem JoinOf.weaken {errors larger : List ScanError} {wide : ScanError} (h : JoinOf errors wide)
    (subset : errors ⊆ larger) : JoinOf larger wide := by
  obtain ⟨⟨e, first, starts⟩, ⟨f, last, ends⟩, between⟩ := h
  refine ⟨⟨e, subset first, starts⟩, ⟨f, subset last, ends⟩, ?_⟩
  intro i low high
  obtain ⟨g, member, covers⟩ := between i low high
  exact ⟨g, subset member, covers⟩

theorem JoinOf.extend {e f : ScanError} {rest : List ScanError} (h : JoinOf rest f)
    (touch : ScanError.continues e f = true) : JoinOf (e :: rest) { e with stop := f.stop } := by
  obtain ⟨_, adjoin, message⟩ := continues_iff.mp touch
  obtain ⟨_, ⟨g, last, stop, tells⟩, between⟩ := h
  refine ⟨⟨e, List.mem_cons_self, rfl, rfl, rfl⟩,
    ⟨g, List.mem_cons_of_mem _ last, stop, tells.trans message.symm⟩, ?_⟩
  intro i low high
  by_cases here : i < e.stop
  · exact ⟨e, List.mem_cons_self, rfl, low, here⟩
  · obtain ⟨c, member, tells', covers⟩ := between i (by omega) high
    exact ⟨c, List.mem_cons_of_mem _ member, tells'.trans message.symm, covers⟩

theorem joinOf_joinRuns (errors : List ScanError) :
    ∀ wide ∈ ScanError.joinRuns errors, JoinOf errors wide := by
  fun_induction ScanError.joinRuns errors with
  | case1 =>
      intro wide member
      cases member
  | case2 first rest joined ih =>
      intro wide member
      rw [List.mem_singleton.mp member]
      exact .single first rest
  | case3 first rest f more joined touch ih =>
      intro wide member
      rw [joined] at ih
      rcases List.mem_cons.mp member with rfl | inMore
      · exact (ih f List.mem_cons_self).extend touch
      · exact (ih wide (List.mem_cons_of_mem _ inMore)).weaken (List.subset_cons_self _ _)
  | case4 first rest f more joined untouched ih =>
      intro wide member
      rw [joined] at ih
      rcases List.mem_cons.mp member with rfl | later
      · exact .single _ rest
      · exact (ih wide later).weaken (List.subset_cons_self _ _)

/-! ## The errors of a source -/

theorem joinOf_errors {source : Bytes} {e : ScanError} (member : e ∈ errors source) :
    JoinOf (rawErrors source) e :=
  joinOf_joinRuns (rawErrors source) e member

theorem error_proper {source : Bytes} {e : ScanError} (member : e ∈ errors source) :
    e.start < e.stop :=
  joinRuns_proper (fun _ raw => (rawError_inside raw).2.1) e member

theorem errors_apart (source : Bytes) : (errors source).Pairwise Apart :=
  joinRuns_apart (fun _ raw => (rawError_inside raw).2.1) (rawErrors_ordered source)

theorem error_inside {source : Bytes} {e : ScanError} (member : e ∈ errors source) :
    0 ≤ e.start ∧ e.start < e.stop ∧ e.stop ≤ source.length := by
  have proper := error_proper member
  obtain ⟨⟨f, first, _, starts, _⟩, ⟨g, last, ends, _⟩, _⟩ := joinOf_errors member
  have low := (rawError_inside first).1
  have high := (rawError_inside last).2.2
  omega

theorem error_message {source : Bytes} {e : ScanError} (member : e ∈ errors source) :
    e.message = unexpected ∨ e.message = unterminated := by
  obtain ⟨⟨f, first, _, _, tells⟩, _, _⟩ := joinOf_errors member
  rcases rawError_cases first with ⟨i, stray⟩ | ⟨i, isOpen⟩
  · exact .inl (tells.symm.trans stray.message)
  · exact .inr (tells.symm.trans isOpen.message)

/-- The spans that call a character unexpected cover the stray bytes and no others. -/
theorem strayAt_iff_covered {source : Bytes} (i : Nat) :
    (∃ e ∈ errors source, e.message = unexpected ∧ e.start ≤ i ∧ i < e.stop) ↔
      StrayAt source i := by
  constructor
  · rintro ⟨e, member, message, low, high⟩
    obtain ⟨f, raw, tells, low', high'⟩ := (joinOf_errors member).between i low high
    obtain ⟨j, stray⟩ := strayError_of_message raw (tells.trans message)
    have same : j = i := by
      have := stray.start
      have := stray.stop
      omega
    exact same ▸ stray.stray
  · intro stray
    obtain ⟨f, raw, here⟩ := stray.exists_rawError
    have proper : ∀ e ∈ rawErrors source, e.start ≤ e.stop := fun e member =>
      Int.le_of_lt (rawError_inside member).2.1
    obtain ⟨wide, member, _, tells, low, high⟩ := (joinRuns_widens proper).2 f raw
    have := here.start
    have := here.stop
    exact ⟨wide, member, tells.trans here.message, by omega, by omega⟩

/-- From `start` up to `stop` all positions have the property, and those next to them
do not. -/
structure MaximalRun (property : Nat → Prop) (start stop : Int) : Prop where
  all : ∀ i : Nat, start ≤ i → i < stop → property i
  before : ∀ i : Nat, (i : Int) + 1 = start → ¬ property i
  behind : ∀ i : Nat, (i : Int) = stop → ¬ property i

theorem maximalRun_of_unexpected {source : Bytes} {e : ScanError} (member : e ∈ errors source)
    (message : e.message = unexpected) : MaximalRun (StrayAt source) e.start e.stop := by
  have proper := error_proper member
  -- a stray byte next to the span would lie in another one, which would touch this one
  have edge : ∀ i : Nat, (i : Int) + 1 = e.start ∨ (i : Int) = e.stop → ¬ StrayAt source i := by
    intro i next stray
    obtain ⟨f, member', message', low, high⟩ := (strayAt_iff_covered i).mpr stray
    have same : f.message = e.message := message'.trans message.symm
    rcases eq_or_of_pairwise (errors_apart source) member member' with rfl | apart | apart
    · omega
    · obtain ⟨order, differ⟩ := apart
      exact differ (by omega) same.symm
    · obtain ⟨order, differ⟩ := apart
      exact differ (by omega) same
  refine ⟨?_, fun i next => edge i (.inl next), fun i next => edge i (.inr next)⟩
  intro i low high
  exact (strayAt_iff_covered i).mp ⟨e, member, message, low, high⟩

theorem line_of_unexpected {source : Bytes} {e : ScanError} (member : e ∈ errors source)
    (message : e.message = unexpected) :
    e.line = (1 + Bytes.lineEnds (source.take e.start.toNat) : Nat) := by
  obtain ⟨⟨f, first, line, start, tells⟩, _, _⟩ := joinOf_errors member
  obtain ⟨i, stray⟩ := strayError_of_message first (tells.trans message)
  have offset : e.start.toNat = i := by
    have := stray.start
    omega
  rw [← line, stray.line, offset]

theorem openError_of_unterminated {source : Bytes} {e : ScanError} (member : e ∈ errors source)
    (message : e.message = unterminated) : OpenError source e e.start.toNat := by
  obtain ⟨⟨f, first, line, start, tells⟩, ⟨g, last, stop, tells'⟩, _⟩ := joinOf_errors member
  obtain ⟨i, isOpen⟩ := openError_of_message first (tells.trans message)
  obtain ⟨j, isOpen'⟩ := openError_of_message last (tells'.trans message)
  have offset : e.start.toNat = i := by
    have := isOpen.start
    omega
  rw [offset]
  exact ⟨message, start.symm.trans isOpen.start, stop.symm.trans isOpen'.stop, isOpen.inside,
    line.symm.trans isOpen.line, isOpen.quote, isOpen.unclosed, isOpen.tokens⟩

/-- Behind the error of an open string there is no other, and before it no error of
that kind. -/
theorem unterminated_last {source : Bytes} {before after : List ScanError} {e : ScanError}
    (split : errors source = before ++ e :: after) (message : e.message = unterminated) :
    after = [] ∧ ∀ f ∈ before, f.message ≠ unterminated := by
  have apart := errors_apart source
  rw [split] at apart
  obtain ⟨_, behind, ahead⟩ := List.pairwise_append.mp apart
  have here : e ∈ errors source := by simp [split]
  have stop := (openError_of_unterminated here message).stop
  constructor
  · refine List.eq_nil_iff_forall_not_mem.mpr fun f member => ?_
    have order := ((List.pairwise_cons.mp behind).1 f member).1
    have there : f ∈ errors source := by simp [split, member]
    have inside := error_inside there
    omega
  · intro f member tells
    have order := (ahead f member e List.mem_cons_self).1
    have there : f ∈ errors source := by simp [split, member]
    have stop' := (openError_of_unterminated there tells).stop
    have inside := error_inside here
    omega

theorem getLast?_of_unterminated {source : Bytes} {e : ScanError} (member : e ∈ errors source)
    (message : e.message = unterminated) : (errors source).getLast? = some e := by
  obtain ⟨before, after, split⟩ := List.append_of_mem member
  rw [split, (unterminated_last split message).1]
  exact List.getLast?_concat ..

theorem count_unterminated_le (source : Bytes) :
    (errors source).countP (·.message == unterminated) ≤ 1 := by
  by_cases some : ∃ e ∈ errors source, e.message = unterminated
  · obtain ⟨e, member, message⟩ := some
    obtain ⟨before, after, split⟩ := List.append_of_mem member
    obtain ⟨nothing, others⟩ := unterminated_last split message
    have none : before.countP (·.message == unterminated) = 0 := by
      rw [List.countP_eq_zero]
      intro f inside
      simpa using others f inside
    rw [split, nothing, List.countP_append, none]
    simp [message]
  · have none : (errors source).countP (·.message == unterminated) = 0 := by
      rw [List.countP_eq_zero]
      intro f inside tells
      exact some ⟨f, inside, by simpa using tells⟩
    omega

/-- What the errors of a source are. -/
structure SpansOf (source : Bytes) (errors : List ScanError) : Prop where
  /-- Spans lie in the source and are not empty. -/
  inside : ∀ e ∈ errors, 0 ≤ e.start ∧ e.start < e.stop ∧ e.stop ≤ source.length
  /-- They come in order, and touch only if they say different things. -/
  apart : errors.Pairwise Apart
  messages : ∀ e ∈ errors, e.message = unexpected ∨ e.message = unterminated
  /-- Together they cover the stray bytes. -/
  covers : ∀ i : Nat, (∃ e ∈ errors, e.message = unexpected ∧ e.start ≤ i ∧ i < e.stop) ↔
    StrayAt source i
  /-- Stray bytes lie in no other piece. -/
  outside : ∀ i, StrayAt source i → ∀ placed ∈ place 0 1 (pieces source), placed.start ≤ i →
    i < placed.stop → ∃ b, placed.piece = .stray b
  /-- Each of them is a maximal run of stray bytes. -/
  runs : ∀ e ∈ errors, e.message = unexpected → MaximalRun (StrayAt source) e.start e.stop
  lines : ∀ e ∈ errors, e.message = unexpected →
    e.line = (1 + Bytes.lineEnds (source.take e.start.toNat) : Nat)
  /-- At most one string is left open, and that is the last error. -/
  single : errors.countP (·.message == unterminated) ≤ 1
  last : ∀ e ∈ errors, e.message = unterminated → errors.getLast? = some e
  /-- It reaches from a quote, behind which there is no quote and no token, to the end
  of the source. -/
  unclosed : ∀ e ∈ errors, e.message = unterminated → OpenError source e e.start.toNat

/-- **Scan errors are maximal spans.** Whatever the source, its errors are spans in
order, the unexpected characters are exactly its maximal runs of stray bytes, and a
string that is left open is the last error and reaches to the end. -/
theorem errors_spans (source : Bytes) : SpansOf source (errors source) where
  inside _ member := error_inside member
  apart := errors_apart source
  messages _ member := error_message member
  covers := strayAt_iff_covered
  outside i stray placed member low high := by
    obtain ⟨other, member', rfl, b, kind⟩ := stray.exists_placed
    have stop := (placed_stray_span member' kind).1
    rcases eq_or_of_pairwise (pairwise_place _ 0 1) member member' with rfl | before | behind
    · exact ⟨b, kind⟩
    · omega
    · omega
  runs _ := maximalRun_of_unexpected
  lines _ := line_of_unexpected
  single := count_unterminated_le source
  last _ := getLast?_of_unterminated
  unclosed _ := openError_of_unterminated

end Reckon.Source
