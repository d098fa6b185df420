import Reckon.Proofs.RoundTrip

/-!
# Lexemes with spaces between them

The lexemes of a source, written one behind another with a space between each two,
are a text with the same tokens. A piece that spells a token has the form of its
class, and no class goes on over a space (`stopsAt_space`); so the text falls into
these pieces and the spaces (`pieces_join`), whatever stood between the tokens in the
source: comments, blanks, errors or nothing.
-/

namespace Reckon

/-- What a token says and how it is spelled, wherever it stands. -/
def Token.wording (t : Token) : Kind × Bytes × Payload := (t.kind, t.lexeme, t.payload)

/-- The wording of the token that a piece spells, if it spells one. -/
def Piece.wording? (p : Piece) : Option (Kind × Bytes × Payload) :=
  p.meaning?.map fun (kind, payload) => (kind, p.bytes, payload)

namespace Source

/-- The lexemes of a source with single spaces between them. -/
def respaced (source : Bytes) : Bytes :=
  Bytes.join [Ascii.space] ((tokens source).dropLast.map Token.lexeme)

/-! ## Wordings of pieces -/

theorem map_wording_tokens (source : Bytes) :
    (tokens source).map Token.wording =
      (pieces source).filterMap Piece.wording? ++ [(.eof, [], .absent)] := by
  have kept : ∀ placed : Placed, placed.token?.map Token.wording = placed.piece.wording? := by
    intro placed
    rw [Placed.token?, Option.map_map, Piece.wording?]
    rfl
  rw [tokens, List.map_append, List.map_filterMap]
  simp only [kept]
  rw [filterMap_piece_place]
  rfl

/-- The spelling of a source depends on the wording of its tokens only. -/
theorem respaced_eq (source : Bytes) :
    respaced source =
      Bytes.join [Ascii.space] (((tokens source).map Token.wording).dropLast.map (·.2.1)) := by
  rw [respaced, ← List.map_dropLast, List.map_map]
  rfl

theorem map_bytes_filterMap_wording (ps : List Piece) :
    (ps.filterMap Piece.wording?).map (·.2.1) =
      (ps.filter (·.meaning?.isSome)).map Piece.bytes := by
  induction ps with
  | nil => rfl
  | cons p rest ih =>
      cases meaning : p.meaning? with
      | none =>
          rw [List.filterMap_cons_none (by simp [Piece.wording?, meaning]),
            List.filter_cons_of_neg (by simp [meaning]), ih]
      | some m =>
          rw [List.filterMap_cons_some (by simp [Piece.wording?, meaning]; rfl),
            List.filter_cons_of_pos (by simp [meaning]), List.map_cons, List.map_cons, ih]

/-! ## Pieces between spaces -/

theorem stopsAt_nil (p : Piece) : p.StopsAt [] := by
  have nothing : ∀ continues : UInt8 → Bool, Ends continues [] := by
    intro continues b head
    cases head
  cases p with
  | blank | text | stray => trivial
  | comment | word => exact nothing _
  | symbol kind lexeme =>
      intro b head
      cases head
  | numeral whole fraction =>
      cases fraction with
      | none => exact ⟨nothing _, nofun⟩
      | some fraction => exact nothing _
  | unclosed body => rfl

/-- Only comments and open strings go on over a space. -/
theorem stopsAt_space {p : Piece} (spells : p.meaning?.isSome = true) (rest : Bytes) :
    p.StopsAt (Ascii.space :: rest) := by
  have ends : ∀ {continues : UInt8 → Bool}, continues Ascii.space = false →
      Ends continues (Ascii.space :: rest) := by
    intro continues stop b head
    cases head
    exact stop
  cases p with
  | blank | comment | stray | unclosed => cases spells
  | text body => trivial
  | word spelling => exact ends rfl
  | symbol kind lexeme =>
      apply Grammar.symbol_stopsAt
      intro b head
      cases head
      decide
  | numeral whole fraction =>
      cases fraction with
      | none => exact ⟨ends rfl, fun d more same => by cases same⟩
      | some fraction => exact ends rfl

/-- Pieces of tokens are cut off again from a text with spaces between them. -/
theorem pieces_join {ps : List Piece}
    (spelled : ∀ p ∈ ps, p.Proper ∧ p.meaning?.isSome = true) :
    pieces (Bytes.join [Ascii.space] (ps.map Piece.bytes)) =
      ps.intersperse (.blank Ascii.space) := by
  -- the recursion is that of the joined text: no piece, one, or one with others behind it
  induction ps with
  | nil => rw [List.map_nil, Bytes.join, pieces, List.intersperse_nil]
  | cons p rest ih =>
      obtain ⟨proper, spells⟩ := spelled p List.mem_cons_self
      have later := ih fun q member => spelled q (List.mem_cons_of_mem p member)
      cases rest with
      | nil =>
          have alone := pieces_append proper (stopsAt_nil p)
          rw [List.append_nil, pieces] at alone
          exact alone
      | cons q rest =>
          rw [List.map_cons, List.map_cons, Bytes.join, ← List.map_cons, List.append_assoc,
            List.singleton_append, pieces_append proper (stopsAt_space spells _),
            pieces_of_leading (leading_blank rfl _), later]
          rfl

theorem filterMap_intersperse {α β : Type} (f : α → Option β) {separator : α}
    (dropped : f separator = none) (l : List α) :
    (l.intersperse separator).filterMap f = l.filterMap f := by
  induction l with
  | nil => rfl
  | cons a rest ih =>
      cases rest with
      | nil => rfl
      | cons b rest =>
          rw [List.intersperse_cons_cons, List.filterMap_cons, List.filterMap_cons_none dropped, ih,
            ← List.filterMap_cons]

/-! ## Respaced sources -/

theorem pieces_respaced (source : Bytes) :
    pieces (respaced source) =
      ((pieces source).filter (·.meaning?.isSome)).intersperse (.blank Ascii.space) := by
  have spelled : ∀ p ∈ (pieces source).filter (·.meaning?.isSome),
      p.Proper ∧ p.meaning?.isSome = true := by
    intro p member
    obtain ⟨inside, spells⟩ := List.mem_filter.mp member
    exact ⟨proper_pieces inside, spells⟩
  rw [respaced_eq, map_wording_tokens, List.dropLast_concat, map_bytes_filterMap_wording,
    pieces_join spelled]

theorem filterMap_wording_filter (ps : List Piece) :
    (ps.filter (·.meaning?.isSome)).filterMap Piece.wording? = ps.filterMap Piece.wording? := by
  rw [List.filterMap_filter]
  congr 1
  funext p
  cases meaning : p.meaning? with
  | none => simp [Piece.wording?, meaning]
  | some m => simp

theorem map_wording_respaced (source : Bytes) :
    (tokens (respaced source)).map Token.wording = (tokens source).map Token.wording := by
  rw [map_wording_tokens, map_wording_tokens, pieces_respaced, filterMap_intersperse _ rfl,
    filterMap_wording_filter]

theorem errors_respaced (source : Bytes) : errors (respaced source) = [] := by
  have inOrder : ∀ p : Piece, p.meaning?.isSome = true → p.complaint? = none := by
    intro p spells
    cases p with
    | blank | comment | stray | unclosed => cases spells
    | symbol | word | numeral | text => rfl
  have clean : (pieces (respaced source)).filterMap Piece.complaint? = [] := by
    rw [pieces_respaced, filterMap_intersperse _ rfl, List.filterMap_eq_nil_iff]
    intro p member
    exact inOrder p (List.mem_filter.mp member).2
  exact errors_eq_nil (List.filterMap_eq_nil_iff.mp clean)

/-- **Lexemes delimit themselves.** Whatever the source, its lexemes with single
spaces between them scan without errors to tokens of the same kinds, lexemes and
payloads, and respacing that text changes nothing. -/
theorem respaced_faithful (source : Bytes) :
    errors (respaced source) = [] ∧
      (tokens (respaced source)).map Token.wording = (tokens source).map Token.wording ∧
      respaced (respaced source) = respaced source := by
  refine ⟨errors_respaced source, map_wording_respaced source, ?_⟩
  rw [respaced_eq (respaced source), map_wording_respaced, ← respaced_eq]

end Source

end Reckon
