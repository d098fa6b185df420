import Reckon.Proofs.Joining
import Reckon.Proofs.Spans

/-!
# Sources further down

A text behind a line end is scanned as it is by itself, only further down: its
tokens stand on later lines, its errors on later lines and at larger offsets.

* Places depend on where the first piece is put and on nothing else
  (`place_moved`), so the places of pieces in a row are those of the first pieces
  and, moved, those of the others (`place_append`).
* Joining errors looks at differences of places only (`joinRuns_moved`), and errors
  that do not touch are not joined (`joinRuns_append`).

`scan_joined` says this of whole sources, the line end between them being a piece
of its own by `pieces_joined`.
-/

namespace Reckon

/-- The token as many lines further down. -/
def Token.moved (lines : Nat) (t : Token) : Token := { t with line := t.line + lines }

/-- The error as many lines and bytes further down. -/
def ScanError.moved (lines bytes : Nat) (e : ScanError) : ScanError :=
  { e with line := e.line + lines, start := e.start + bytes, stop := e.stop + bytes }

namespace Source

/-! ## Places -/

def Placed.moved (lines bytes : Nat) (p : Placed) : Placed :=
  { p with start := p.start + bytes, line := p.line + lines }

theorem token?_moved (lines bytes : Nat) (p : Placed) :
    (p.moved lines bytes).token? = p.token?.map (Token.moved lines) := by
  simp only [Placed.token?, Placed.moved, Option.map_map]
  cases p.piece.meaning? with
  | none => rfl
  | some meaning => simp [Token.moved]

theorem error?_moved (lines bytes : Nat) (p : Placed) :
    (p.moved lines bytes).error? = p.error?.map (ScanError.moved lines bytes) := by
  simp only [Placed.error?, Placed.moved, Option.map_map]
  cases p.piece.complaint? with
  | none => rfl
  | some message =>
      simp only [Option.map_some, Function.comp_apply, ScanError.moved, Placed.stop]
      push_cast
      simp only [Int.add_right_comm]

theorem place_moved (start line lines bytes : Nat) (ps : List Piece) :
    place (start + bytes) (line + lines) ps =
      (place start line ps).map (Placed.moved lines bytes) := by
  induction ps generalizing start line with
  | nil => rfl
  | cons p rest ih =>
      simp only [place, List.map_cons, Placed.moved]
      rw [Nat.add_right_comm start bytes, Nat.add_right_comm line lines, ih]

theorem place_append (start line : Nat) (ps qs : List Piece) :
    place start line (ps ++ qs) = place start line ps ++
      place (start + (ps.flatMap Piece.bytes).length)
        (line + Bytes.lineEnds (ps.flatMap Piece.bytes)) qs := by
  induction ps generalizing start line with
  | nil => rfl
  | cons p rest ih =>
      simp only [List.cons_append, place, ih, List.flatMap_cons, List.length_append,
        Bytes.lineEnds_append, Nat.add_assoc]

/-- The places of joined pieces: those of the first text, the line end, and those of
the second text, moved behind it. -/
theorem place_joined {a : Bytes} (closed : ∀ body, .unclosed body ∉ pieces a) (b : Bytes) :
    ∃ joint, joint.piece = .blank Ascii.newline ∧
      place 0 1 (pieces (a ++ Ascii.newline :: b)) = place 0 1 (pieces a) ++
        joint :: (place 0 1 (pieces b)).map (Placed.moved (Bytes.lineEnds a + 1) (a.length + 1)) := by
  have lineEnd : Bytes.lineEnds (Piece.blank Ascii.newline).bytes = 1 := rfl
  have length : (Piece.blank Ascii.newline).bytes.length = 1 := rfl
  rw [pieces_joined closed, place_append, flatMap_bytes_pieces, place, lineEnd, length,
    ← place_moved, Nat.add_assoc, Nat.add_assoc]
  exact ⟨_, rfl, rfl⟩

/-! ## Joined errors -/

theorem continues_moved (lines bytes : Nat) (e f : ScanError) :
    ScanError.continues (e.moved lines bytes) (f.moved lines bytes) =
      ScanError.continues e f := by
  rw [Bool.eq_iff_iff, continues_iff, continues_iff]
  simp only [ScanError.moved, Int.add_left_inj]

theorem joinRuns_moved (lines bytes : Nat) (errors : List ScanError) :
    ScanError.joinRuns (errors.map (ScanError.moved lines bytes)) =
      (ScanError.joinRuns errors).map (ScanError.moved lines bytes) := by
  induction errors with
  | nil => rfl
  | cons e rest ih =>
      simp only [List.map_cons, ScanError.joinRuns, ih]
      cases ScanError.joinRuns rest with
      | nil => rfl
      | cons f more =>
          simp only [List.map_cons, continues_moved]
          split
          · rfl
          · rfl

/-- Errors are joined on their own if none of the first ones is continued by a span
of the others. -/
theorem joinRuns_append {first second : List ScanError}
    (apart : ∀ e ∈ first, ∀ f ∈ ScanError.joinRuns second, ScanError.continues e f = false) :
    ScanError.joinRuns (first ++ second) =
      ScanError.joinRuns first ++ ScanError.joinRuns second := by
  induction first with
  | nil => rfl
  | cons e rest ih =>
      have later := ih fun e' member => apart e' (List.mem_cons_of_mem e member)
      rw [List.cons_append, ScanError.joinRuns, later, ScanError.joinRuns]
      cases ScanError.joinRuns rest with
      | cons f more =>
          -- the neighbour of the new error is one of the first errors
          simp only [List.cons_append]
          split
          · rfl
          · rfl
      | nil =>
          cases joined : ScanError.joinRuns second with
          | nil => rfl
          | cons f more =>
              have untouched := apart e List.mem_cons_self f (by simp [joined])
              simp [untouched]

/-! ## Joined sources -/

theorem tokens_moved {a : Bytes} (closed : ∀ body, .unclosed body ∉ pieces a) (b : Bytes) :
    tokens (a ++ Ascii.newline :: b) = (place 0 1 (pieces a)).filterMap Placed.token? ++
      (tokens b).map (Token.moved (Bytes.lineEnds a + 1)) := by
  obtain ⟨joint, blank, places⟩ := place_joined closed b
  have silent : joint.token? = none := by
    rw [Placed.token?, blank]
    rfl
  have last : endToken (a ++ Ascii.newline :: b) =
      (endToken b).moved (Bytes.lineEnds a + 1) := by
    have newline : Bytes.lineEnds (Ascii.newline :: b) = 1 + Bytes.lineEnds b := by
      rw [← List.singleton_append, Bytes.lineEnds_append]
      rfl
    simp only [endToken, Token.moved, lastLine, Bytes.lineEnds_append, newline]
    congr 1
    omega
  have moved : Placed.token? ∘ Placed.moved (Bytes.lineEnds a + 1) (a.length + 1) =
      fun p => p.token?.map (Token.moved (Bytes.lineEnds a + 1)) :=
    funext fun p => token?_moved _ _ p
  rw [tokens, places, List.filterMap_append, List.filterMap_cons_none silent, List.filterMap_map,
    moved, last, tokens, List.map_append, List.map_filterMap, List.append_assoc]
  rfl

theorem rawErrors_moved {a : Bytes} (closed : ∀ body, .unclosed body ∉ pieces a) (b : Bytes) :
    rawErrors (a ++ Ascii.newline :: b) = rawErrors a ++
      (rawErrors b).map (ScanError.moved (Bytes.lineEnds a + 1) (a.length + 1)) := by
  obtain ⟨joint, blank, places⟩ := place_joined closed b
  have silent : joint.error? = none := by
    rw [Placed.error?, blank]
    rfl
  have moved : Placed.error? ∘ Placed.moved (Bytes.lineEnds a + 1) (a.length + 1) =
      fun p => p.error?.map (ScanError.moved (Bytes.lineEnds a + 1) (a.length + 1)) :=
    funext fun p => error?_moved _ _ p
  rw [rawErrors, places, List.filterMap_append, List.filterMap_cons_none silent,
    List.filterMap_map, moved, rawErrors, rawErrors, List.map_filterMap]

theorem errors_moved {a : Bytes} (closed : ∀ body, .unclosed body ∉ pieces a) (b : Bytes) :
    errors (a ++ Ascii.newline :: b) = errors a ++
      (errors b).map (ScanError.moved (Bytes.lineEnds a + 1) (a.length + 1)) := by
  show ScanError.joinRuns (rawErrors (a ++ Ascii.newline :: b)) = _
  rw [rawErrors_moved closed, joinRuns_append, joinRuns_moved]
  · rfl
  · -- the line end stands between the errors of both texts
    rw [joinRuns_moved]
    intro e first f second
    obtain ⟨g, member, rfl⟩ := List.mem_map.mp second
    have before := rawError_inside first
    have behind := error_inside member
    refine Bool.eq_false_iff.mpr fun touch => ?_
    have meet : e.stop = g.start + (a.length + 1 : Nat) := (continues_iff.mp touch).2.1
    omega

/-- **Joined sources are scanned one after the other.** Let the first source leave no
string open. Joined to a second source by a line end, it has the tokens of the first
source but for the end, then those of the second one as many lines further down as
the first one and the line end make; and it has the errors of the first source, then
those of the second one, moved by as many lines and bytes. -/
theorem scan_joined (a b : Bytes)
    (closed : ∀ e ∈ errors a, e.message ≠ Bytes.ofString "Unterminated string.") :
    (∃ front, tokens a = front ++ [endToken a] ∧ tokens (a ++ Ascii.newline :: b) =
        front ++ (tokens b).map (Token.moved (Bytes.lineEnds a + 1))) ∧
      errors (a ++ Ascii.newline :: b) = errors a ++
        (errors b).map (ScanError.moved (Bytes.lineEnds a + 1) (a.length + 1)) := by
  have unopened := not_mem_unclosed closed
  exact ⟨⟨_, rfl, tokens_moved unopened b⟩, errors_moved unopened b⟩

/-- A text over two lines, a stray byte at the end of the first source and one at the
start of the second, which would be one error without the line end. -/
theorem scan_joined_sample :
    let a := Bytes.ofString "1.5 + \"x\ny\" @"
    let b := Bytes.ofString "#.5 // z"
    (∀ e ∈ errors a, e.message ≠ Bytes.ofString "Unterminated string.") ∧
      (∃ front, tokens a = front ++ [endToken a] ∧ tokens (a ++ Ascii.newline :: b) =
          front ++ (tokens b).map (Token.moved (Bytes.lineEnds a + 1))) ∧
      errors (a ++ Ascii.newline :: b) = errors a ++
        (errors b).map (ScanError.moved (Bytes.lineEnds a + 1) (a.length + 1)) := by
  intro a b
  have closed : ∀ e ∈ errors a, e.message ≠ Bytes.ofString "Unterminated string." := by
    decide +kernel
  exact ⟨closed, scan_joined a b closed⟩

end Source

end Reckon
