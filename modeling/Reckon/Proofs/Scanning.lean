import Reckon.Proofs.Numerals
import Reckon.Source.Scan

/-!
# What source text falls into

Every piece that is cut off a source has the form of its class (`Piece.Proper`),
and a piece of that form is cut off again wherever nothing behind it continues it
(`pieces_append`). Tokens keep the kind and the payload of their pieces, in
order (`map_meaning_place`), so facts about pieces are facts about tokens:

* literal tokens come from numerals and closed strings, and carry what these
  write (`literal_of_mem_tokens`);
* a source whose pieces are all in order has no errors (`errors_eq_nil`).
-/

namespace Reckon

open Bytes (DigitRun)

/-! ## The forms of pieces -/

namespace Source

/-- `IsSymbol kind lexeme`: the bytes `lexeme` are a symbol of that kind. -/
inductive IsSymbol : Kind → Bytes → Prop
  | mark {b : UInt8} {kind : Kind} : (b, kind) ∈ marks → IsSymbol kind [b]
  | short {b : UInt8} {short long : Kind} : (b, short, long) ∈ extensible → IsSymbol short [b]
  | long {b : UInt8} {short long : Kind} : (b, short, long) ∈ extensible →
      IsSymbol long [b, Ascii.equals]
  | slash : IsSymbol .slash [Ascii.slash]

/-- The bytes with which a symbol or a comment starts. -/
def openers : List UInt8 := marks.map Prod.fst ++ extensible.map Prod.fst ++ [Ascii.slash]

/-- `Ends continues rest`: the text `rest` does not start with a byte that
continues what stands before it. -/
def Ends (continues : UInt8 → Bool) (rest : Bytes) : Prop :=
  ∀ b ∈ rest.head?, continues b = false

end Source

namespace Piece

open Source

/-- A piece has the form of its class. -/
def Proper : Piece → Prop
  | blank b => isBlank b = true
  | comment body => Ascii.newline ∉ body
  | symbol kind lexeme => IsSymbol kind lexeme
  | word spelling => ∃ b tail, spelling = b :: tail ∧ isLetter b = true ∧
      ∀ c ∈ tail, isWordByte c = true
  | numeral whole fraction => DigitRun whole ∧ ∀ digits ∈ fraction, DigitRun digits
  | text body => Ascii.quote ∉ body
  | stray b => b ∉ openers ∧ isBlank b = false ∧ b ≠ Ascii.quote ∧ isWordByte b = false
  | unclosed body => Ascii.quote ∉ body

/-- Nothing at the front of `rest` continues a piece. -/
def StopsAt (rest : Bytes) : Piece → Prop
  | blank _ | text _ | stray _ => True
  | comment _ => Ends (· != Ascii.newline) rest
  | symbol _ lexeme => ∀ b ∈ rest.head?,
      (∀ kind, ¬ IsSymbol kind (lexeme ++ [b])) ∧ lexeme ++ [b] ≠ [Ascii.slash, Ascii.slash]
  | word _ => Ends isWordByte rest
  | numeral _ none => Ends Bytes.isDigit rest ∧
      ∀ d more, rest = Ascii.point :: d :: more → Bytes.isDigit d = false
  | numeral _ (some _) => Ends Bytes.isDigit rest
  | unclosed _ => rest = []

end Piece

namespace Source

/-! ## Runs of bytes -/

/-- A run ends where the text behind it does not continue it. -/
theorem takeWhile_run {p : UInt8 → Bool} {run rest : Bytes} (all : ∀ b ∈ run, p b = true)
    (ends : Ends p rest) : (run ++ rest).takeWhile p = run := by
  rw [List.takeWhile_append_of_pos all]
  cases rest with
  | nil => simp
  | cons b rest => rw [List.takeWhile_cons_of_neg (by simp [ends b rfl]), List.append_nil]

theorem dropWhile_run {p : UInt8 → Bool} {run rest : Bytes} (all : ∀ b ∈ run, p b = true)
    (ends : Ends p rest) : (run ++ rest).dropWhile p = rest := by
  rw [List.dropWhile_append_of_pos all]
  cases rest with
  | nil => simp
  | cons b rest => rw [List.dropWhile_cons_of_neg (by simp [ends b rfl])]

theorem of_mem_takeWhile {p : UInt8 → Bool} {text : Bytes} {b : UInt8}
    (member : b ∈ text.takeWhile p) : p b = true :=
  List.all_eq_true.mp List.all_takeWhile b member

theorem not_mem_takeWhile_ne (b : UInt8) (text : Bytes) : b ∉ text.takeWhile (· != b) := by
  intro member
  have differs := of_mem_takeWhile member
  simp at differs

theorem ne_of_not_mem {b : UInt8} {text : Bytes} (absent : b ∉ text) :
    ∀ c ∈ text, (c != b) = true := by
  intro c member
  exact bne_iff_ne.mpr fun same => absent (same ▸ member)

/-! ## The tests of the scanner -/

theorem lookup_eq_none {β : Type} {table : List (UInt8 × β)} {b : UInt8}
    (absent : b ∉ table.map Prod.fst) : table.lookup b = none := by
  rw [List.lookup_eq_none_iff]
  intro entry member
  refine bne_iff_ne.mpr fun same => absent ?_
  exact List.mem_map.mpr ⟨entry, member, same.symm⟩

/-- Behind the tests for symbols and comments. -/
theorem leading_of_not_opener {b : UInt8} (rest : Bytes) (h : b ∉ openers) :
    leading b rest =
      if isBlank b then (.blank b, rest)
      else if b = Ascii.quote then quotation rest
      else if Bytes.isDigit b then numeral b rest
      else if isLetter b then
        (.word (b :: rest.takeWhile isWordByte), rest.dropWhile isWordByte)
      else (.stray b, rest) := by
  simp only [openers, List.mem_append, not_or, List.mem_singleton] at h
  rw [leading, lookup_eq_none h.1.1, lookup_eq_none h.1.2]
  exact if_neg h.2

theorem isBlank_iff {b : UInt8} : isBlank b = true ↔
    b ∈ [Ascii.space, Ascii.carriageReturn, Ascii.tab, Ascii.newline] := by
  simp [isBlank, or_assoc]

/-- No two classes of bytes overlap. -/
theorem opener_classes {b : UInt8} (h : b ∈ openers) :
    isBlank b = false ∧ b ≠ Ascii.quote ∧ isWordByte b = false := by
  have table : openers.all
      (fun b => isBlank b = false ∧ b ≠ Ascii.quote ∧ isWordByte b = false) = true := by decide
  exact of_decide_eq_true (List.all_eq_true.mp table b h)

theorem blank_classes {b : UInt8} (h : isBlank b = true) :
    b ≠ Ascii.quote ∧ isWordByte b = false := by
  have table : [Ascii.space, Ascii.carriageReturn, Ascii.tab, Ascii.newline].all
      (fun b => b ≠ Ascii.quote ∧ isWordByte b = false) = true := by decide
  exact of_decide_eq_true (List.all_eq_true.mp table b (isBlank_iff.mp h))

theorem not_opener_of_isBlank {b : UInt8} (h : isBlank b = true) : b ∉ openers := by
  intro member
  rw [(opener_classes member).1] at h
  cases h

/-- A byte of a word passes all tests that come before those for words. -/
theorem word_classes {b : UInt8} (h : isWordByte b = true) :
    b ∉ openers ∧ isBlank b = false ∧ b ≠ Ascii.quote := by
  refine ⟨fun member => ?_, ?_, ?_⟩
  · rw [(opener_classes member).2.2] at h
    cases h
  · refine Bool.eq_false_iff.mpr fun blank => ?_
    rw [(blank_classes blank).2] at h
    cases h
  · intro same
    rw [same] at h
    exact absurd h (by decide)

theorem isDigit_eq_false_of_isLetter {b : UInt8} (h : isLetter b = true) :
    Bytes.isDigit b = false := by
  simp only [isLetter, Bytes.isDigit, Bool.or_eq_true, Bool.and_eq_true, decide_eq_true_eq,
    beq_iff_eq, Bool.and_eq_false_iff, decide_eq_false_iff_not, UInt8.le_iff_toNat_le] at h ⊢
  rcases h with (h | h) | h
  · right
    have : Ascii.smallA.toNat = 97 ∧ Ascii.nine.toNat = 57 := by decide
    omega
  · right
    have : Ascii.capitalA.toNat = 65 ∧ Ascii.nine.toNat = 57 := by decide
    omega
  · rw [h]
    decide

/-! ## The first piece, class by class -/

theorem leading_mark {b : UInt8} {kind : Kind} (h : (b, kind) ∈ marks) (rest : Bytes) :
    leading b rest = (.symbol kind [b], rest) := by
  have table : ∀ entry ∈ marks, marks.lookup entry.1 = some entry.2 := by decide
  rw [leading, table (b, kind) h]

theorem leading_extensible {b : UInt8} {short long : Kind} (h : (b, short, long) ∈ extensible)
    (rest : Bytes) : leading b rest = extended b short long rest := by
  have table : ∀ entry ∈ extensible,
      marks.lookup entry.1 = none ∧ extensible.lookup entry.1 = some entry.2 := by decide
  obtain ⟨unmarked, found⟩ := table (b, short, long) h
  rw [leading, unmarked, found]

theorem leading_slash (rest : Bytes) : leading Ascii.slash rest = slashed rest := rfl

theorem leading_blank {b : UInt8} (h : isBlank b = true) (rest : Bytes) :
    leading b rest = (.blank b, rest) := by
  rw [leading_of_not_opener rest (not_opener_of_isBlank h), if_pos h]

theorem leading_quote (rest : Bytes) : leading Ascii.quote rest = quotation rest := rfl

theorem leading_digit {b : UInt8} (h : Bytes.isDigit b = true) (rest : Bytes) :
    leading b rest = numeral b rest := by
  obtain ⟨unopened, unblank, unquoted⟩ := word_classes (show isWordByte b = true by
    simp [isWordByte, h])
  rw [leading_of_not_opener rest unopened, unblank, if_neg Bool.false_ne_true, if_neg unquoted,
    if_pos h]

theorem leading_letter {b : UInt8} (h : isLetter b = true) (rest : Bytes) :
    leading b rest = (.word (b :: rest.takeWhile isWordByte), rest.dropWhile isWordByte) := by
  obtain ⟨unopened, unblank, unquoted⟩ := word_classes (show isWordByte b = true by
    simp [isWordByte, h])
  rw [leading_of_not_opener rest unopened, unblank, if_neg Bool.false_ne_true, if_neg unquoted,
    isDigit_eq_false_of_isLetter h, if_neg Bool.false_ne_true, if_pos h]

theorem leading_stray {b : UInt8} (h : (Piece.stray b).Proper) (rest : Bytes) :
    leading b rest = (.stray b, rest) := by
  obtain ⟨unopened, unblank, unquoted, unworded⟩ := h
  obtain ⟨unlettered, undigit⟩ := Bool.or_eq_false_iff.mp unworded
  rw [leading_of_not_opener rest unopened, unblank, if_neg Bool.false_ne_true, if_neg unquoted,
    undigit, if_neg Bool.false_ne_true, unlettered, if_neg Bool.false_ne_true]

/-! ## Pieces have their forms -/

theorem digitRun_cons_takeWhile {b : UInt8} (h : Bytes.isDigit b = true) (rest : Bytes) :
    DigitRun (b :: rest.takeWhile Bytes.isDigit) := by
  refine ⟨List.cons_ne_nil _ _, fun c member => ?_⟩
  rcases List.mem_cons.mp member with rfl | member
  · exact h
  · exact of_mem_takeWhile member

theorem proper_numeral {b : UInt8} (h : Bytes.isDigit b = true) (rest : Bytes) :
    (numeral b rest).1.Proper := by
  have run := digitRun_cons_takeWhile h rest
  unfold numeral
  dsimp only
  split
  · next p d more heq =>
    split
    · next isFraction =>
      refine ⟨run, fun digits member => ?_⟩
      cases member
      exact digitRun_cons_takeWhile isFraction.2 more
    · exact ⟨run, fun digits member => by cases member⟩
  · exact ⟨run, fun digits member => by cases member⟩

theorem proper_quotation (rest : Bytes) : (quotation rest).1.Proper := by
  unfold quotation
  split
  · next none =>
    -- nothing is left behind the bytes before a quote, so no byte is one
    have all : rest.takeWhile (· != Ascii.quote) = rest := by
      have parts := List.takeWhile_append_dropWhile (p := (· != Ascii.quote)) (l := rest)
      rwa [none, List.append_nil] at parts
    show Ascii.quote ∉ rest
    rw [← all]
    exact not_mem_takeWhile_ne _ _
  · exact not_mem_takeWhile_ne _ _

theorem proper_slashed (rest : Bytes) : (slashed rest).1.Proper := by
  unfold slashed
  split
  · exact IsSymbol.slash
  · split
    · exact not_mem_takeWhile_ne _ _
    · exact IsSymbol.slash

theorem proper_extended {b : UInt8} {short long : Kind} (h : (b, short, long) ∈ extensible)
    (rest : Bytes) : (extended b short long rest).1.Proper := by
  unfold extended
  split
  · exact IsSymbol.short h
  · split
    · next equals =>
      rw [equals]
      exact IsSymbol.long h
    · exact IsSymbol.short h

/-- What a byte can start. -/
inductive Opening (b : UInt8) : Prop
  | mark {kind : Kind} : (b, kind) ∈ marks → Opening b
  | extensible {short long : Kind} : (b, short, long) ∈ extensible → Opening b
  | slash : b = Ascii.slash → Opening b
  | blank : isBlank b = true → Opening b
  | quote : b = Ascii.quote → Opening b
  | digit : Bytes.isDigit b = true → Opening b
  | letter : isLetter b = true → Opening b
  | stray : (Piece.stray b).Proper → Opening b

theorem opening (b : UInt8) : Opening b := by
  by_cases opener : b ∈ openers
  · simp only [openers, List.mem_append, List.mem_map, List.mem_singleton] at opener
    rcases opener with (⟨⟨_, kind⟩, member, rfl⟩ | ⟨⟨_, short, long⟩, member, rfl⟩) | slash
    · exact .mark member
    · exact .extensible member
    · exact .slash slash
  · -- the remaining tests come in the order of the scanner
    by_cases blank : isBlank b = true
    · exact .blank blank
    by_cases quote : b = Ascii.quote
    · exact .quote quote
    by_cases digit : Bytes.isDigit b = true
    · exact .digit digit
    by_cases letter : isLetter b = true
    · exact .letter letter
    · refine .stray ⟨opener, Bool.eq_false_iff.mpr blank, quote, ?_⟩
      simp [isWordByte, letter, digit]

/-- The first piece of a text has the form of its class. -/
theorem proper_leading (b : UInt8) (rest : Bytes) : (leading b rest).1.Proper := by
  cases opening b with
  | mark h =>
      rw [leading_mark h]
      exact IsSymbol.mark h
  | extensible h =>
      rw [leading_extensible h]
      exact proper_extended h rest
  | slash h =>
      rw [h, leading_slash]
      exact proper_slashed rest
  | blank h =>
      rw [leading_blank h]
      exact h
  | quote h =>
      rw [h, leading_quote]
      exact proper_quotation rest
  | digit h =>
      rw [leading_digit h]
      exact proper_numeral h rest
  | letter h =>
      rw [leading_letter h]
      exact ⟨b, _, rfl, h, fun c member => of_mem_takeWhile member⟩
  | stray h =>
      rw [leading_stray h]
      exact h

theorem proper_pieces {source : Bytes} {p : Piece} (member : p ∈ pieces source) : p.Proper := by
  fun_induction pieces source with
  | case1 => cases member
  | case2 b rest ih =>
      rcases List.mem_cons.mp member with rfl | later
      · exact proper_leading b rest
      · exact ih later

/-! ## A piece is cut off again -/

theorem pieces_of_leading {b : UInt8} {rest after : Bytes} {p : Piece}
    (h : leading b rest = (p, after)) : pieces (b :: rest) = p :: pieces after := by
  rw [pieces, h]

theorem extended_short {b : UInt8} {short long : Kind} {rest : Bytes}
    (ends : Ascii.equals ∉ rest.head?) :
    extended b short long rest = (.symbol short [b], rest) := by
  cases rest with
  | nil => rfl
  | cons c rest =>
      have differs : c ≠ Ascii.equals := fun same => ends (by simp [same])
      simp only [extended, if_neg differs]

theorem slashed_symbol {rest : Bytes} (ends : Ascii.slash ∉ rest.head?) :
    slashed rest = (.symbol .slash [Ascii.slash], rest) := by
  cases rest with
  | nil => rfl
  | cons c rest =>
      have differs : c ≠ Ascii.slash := fun same => ends (by simp [same])
      simp only [slashed, if_neg differs]

theorem pieces_symbol {kind : Kind} {lexeme rest : Bytes} (symbol : IsSymbol kind lexeme)
    (stops : (Piece.symbol kind lexeme).StopsAt rest) :
    pieces (lexeme ++ rest) = .symbol kind lexeme :: pieces rest := by
  cases symbol with
  | mark h => exact pieces_of_leading (leading_mark h rest)
  | short h =>
      -- an equals sign behind it would make the long symbol
      rw [List.singleton_append]
      refine pieces_of_leading ?_
      rw [leading_extensible h]
      exact extended_short fun equals => (stops _ equals).1 _ (.long h)
  | long h =>
      refine pieces_of_leading ?_
      rw [leading_extensible h]
      rfl
  | slash =>
      refine pieces_of_leading ?_
      exact slashed_symbol fun slash => (stops _ slash).2 rfl

theorem pieces_comment {body rest : Bytes} (proper : Ascii.newline ∉ body)
    (stops : Ends (· != Ascii.newline) rest) :
    pieces (Ascii.slash :: Ascii.slash :: body ++ rest) = .comment body :: pieces rest := by
  have all := ne_of_not_mem proper
  rw [List.cons_append, List.cons_append]
  refine pieces_of_leading ?_
  rw [leading_slash, slashed, if_pos rfl, takeWhile_run all stops, dropWhile_run all stops]

theorem pieces_word {b : UInt8} {word rest : Bytes} (letter : isLetter b = true)
    (all : ∀ c ∈ word, isWordByte c = true) (stops : Ends isWordByte rest) :
    pieces (b :: word ++ rest) = .word (b :: word) :: pieces rest := by
  rw [List.cons_append]
  refine pieces_of_leading ?_
  rw [leading_letter letter, takeWhile_run all stops, dropWhile_run all stops]

theorem pieces_text {body : Bytes} (proper : Ascii.quote ∉ body) (rest : Bytes) :
    pieces (Ascii.quote :: body ++ [Ascii.quote] ++ rest) = .text body :: pieces rest := by
  have all := ne_of_not_mem proper
  have closes : Ends (· != Ascii.quote) (Ascii.quote :: rest) := by
    intro b member
    cases member
    decide
  rw [List.append_assoc, List.singleton_append, List.cons_append]
  refine pieces_of_leading ?_
  rw [leading_quote, quotation, dropWhile_run all closes, takeWhile_run all closes]

theorem pieces_unclosed {body : Bytes} (proper : Ascii.quote ∉ body) :
    pieces (Ascii.quote :: body) = [.unclosed body] := by
  have all := ne_of_not_mem proper
  have nothing : body.dropWhile (· != Ascii.quote) = [] := by
    have dropped : (body ++ []).dropWhile (· != Ascii.quote) = [] :=
      dropWhile_run all (fun b member => by cases member)
    rwa [List.append_nil] at dropped
  have cut : leading Ascii.quote body = (.unclosed body, []) := by
    rw [leading_quote, quotation, nothing]
  rw [pieces_of_leading cut, pieces]

/-- Without a fraction, what follows must not look like one. -/
theorem pieces_whole {whole rest : Bytes} (run : DigitRun whole)
    (stops : (Piece.numeral whole none).StopsAt rest) :
    pieces (whole ++ rest) = .numeral whole none :: pieces rest := by
  obtain ⟨nonempty, all⟩ := run
  obtain ⟨ends, unpointed⟩ := stops
  cases whole with
  | nil => exact absurd rfl nonempty
  | cons b whole =>
      have later : ∀ c ∈ whole, Bytes.isDigit c = true :=
        fun c member => all c (List.mem_cons_of_mem b member)
      rw [List.cons_append]
      refine pieces_of_leading ?_
      rw [leading_digit (all b List.mem_cons_self), numeral]
      simp only [takeWhile_run later ends, dropWhile_run later ends]
      split
      · next p d more =>
        rw [if_neg]
        rintro ⟨rfl, digit⟩
        rw [unpointed d more rfl] at digit
        cases digit
      · rfl

theorem pieces_fraction {whole fraction rest : Bytes} (run : DigitRun whole)
    (run' : DigitRun fraction) (ends : Ends Bytes.isDigit rest) :
    pieces (whole ++ Ascii.point :: fraction ++ rest)
      = .numeral whole (some fraction) :: pieces rest := by
  obtain ⟨nonempty, all⟩ := run
  obtain ⟨nonempty', all'⟩ := run'
  cases whole with
  | nil => exact absurd rfl nonempty
  | cons b whole =>
      cases fraction with
      | nil => exact absurd rfl nonempty'
      | cons d fraction =>
          have later : ∀ c ∈ whole, Bytes.isDigit c = true :=
            fun c member => all c (List.mem_cons_of_mem b member)
          have later' : ∀ c ∈ fraction, Bytes.isDigit c = true :=
            fun c member => all' c (List.mem_cons_of_mem d member)
          have pointed : Ends Bytes.isDigit (Ascii.point :: (d :: fraction ++ rest)) := by
            intro c member
            cases member
            decide
          rw [List.append_assoc, List.cons_append]
          refine pieces_of_leading ?_
          rw [leading_digit (all b List.mem_cons_self), numeral]
          simp only [List.cons_append] at pointed ⊢
          simp only [takeWhile_run later pointed, dropWhile_run later pointed]
          rw [if_pos ⟨trivial, all' d List.mem_cons_self⟩, takeWhile_run later' ends,
            dropWhile_run later' ends]

/-- **Pieces are cut where they end.** A piece that has the form of its class is
the first piece of any text that starts with it and does not continue it. -/
theorem pieces_append {p : Piece} {rest : Bytes} (proper : p.Proper) (stops : p.StopsAt rest) :
    pieces (p.bytes ++ rest) = p :: pieces rest := by
  cases p with
  | blank b => exact pieces_of_leading (leading_blank proper rest)
  | comment body => exact pieces_comment proper stops
  | symbol kind lexeme => exact pieces_symbol proper stops
  | word spelling =>
      obtain ⟨b, word, rfl, letter, all⟩ := proper
      exact pieces_word letter all stops
  | numeral whole fraction =>
      cases fraction with
      | none => exact pieces_whole proper.1 stops
      | some fraction => exact pieces_fraction proper.1 (proper.2 fraction rfl) stops
  | text body => exact pieces_text proper rest
  | stray b => exact pieces_of_leading (leading_stray proper rest)
  | unclosed body =>
      have nothing : rest = [] := stops
      rw [nothing, List.append_nil]
      exact (pieces_unclosed proper).trans (by rw [pieces])

end Source

/-! ## Tokens of pieces -/

/-- What a token says, wherever it stands and however it is spelled. -/
def Token.meaning (t : Token) : Kind × Payload := (t.kind, t.payload)

namespace Source

/-- Placing pieces neither drops nor moves any. -/
theorem map_piece_place (start line : Nat) (ps : List Piece) :
    (place start line ps).map Placed.piece = ps := by
  induction ps generalizing start line with
  | nil => rfl
  | cons p rest ih => rw [place, List.map_cons, ih]

theorem mem_place {start line : Nat} {ps : List Piece} {placed : Placed}
    (member : placed ∈ place start line ps) : placed.piece ∈ ps := by
  rw [← map_piece_place start line ps]
  exact List.mem_map_of_mem member

theorem filterMap_piece_place {α : Type} (start line : Nat) (ps : List Piece)
    (f : Piece → Option α) :
    (place start line ps).filterMap (fun placed => f placed.piece) = ps.filterMap f := by
  have pieces := congrArg (List.filterMap f) (map_piece_place start line ps)
  rwa [List.filterMap_map] at pieces

/-- Tokens keep what their pieces mean, in order. -/
theorem map_meaning_place (start line : Nat) (ps : List Piece) :
    ((place start line ps).filterMap Placed.token?).map Token.meaning
      = ps.filterMap Piece.meaning? := by
  have kept : ∀ placed : Placed, placed.token?.map Token.meaning = placed.piece.meaning? := by
    intro placed
    rw [Placed.token?, Option.map_map]
    exact Option.map_id_apply
  rw [List.map_filterMap]
  simp only [kept]
  exact filterMap_piece_place start line ps Piece.meaning?

/-- A token of a source comes from a piece of it, or is the one at the end. -/
theorem exists_piece_of_mem_tokens {source : Bytes} {t : Token} (member : t ∈ tokens source) :
    t = endToken source ∨
      ∃ p ∈ pieces source, p.meaning? = some t.meaning ∧ t.lexeme = p.bytes := by
  rcases List.mem_append.mp member with front | last
  · obtain ⟨placed, here, token⟩ := List.mem_filterMap.mp front
    obtain ⟨_, meaning, rfl⟩ := Option.map_eq_some_iff.mp token
    exact .inr ⟨placed.piece, mem_place here, meaning, rfl⟩
  · exact .inl (List.mem_singleton.mp last)

/-- Pieces that are all in order give no errors. -/
theorem errors_eq_nil {source : Bytes} (clean : ∀ p ∈ pieces source, p.complaint? = none) :
    errors source = [] := by
  have none : (place 0 1 (pieces source)).filterMap Placed.error? = [] := by
    rw [List.filterMap_eq_nil_iff]
    intro placed member
    simp only [Placed.error?, clean placed.piece (mem_place member), Option.map_none]
  rw [errors, none]
  rfl

/-! ## Literals of a source -/

theorem ofWord_ne_literal (word : Bytes) :
    Kind.ofWord word ≠ .number ∧ Kind.ofWord word ≠ .string := by
  have table : ∀ entry ∈ Kind.keywords, entry.2 ≠ .number ∧ entry.2 ≠ .string := by decide
  unfold Kind.ofWord Kind.keyword?
  cases found : Kind.keywords.lookup word with
  | none => exact ⟨nofun, nofun⟩
  | some kind =>
      obtain ⟨before, after, split, _⟩ := List.lookup_eq_some_iff.mp found
      exact table (word, kind) (split ▸ List.mem_append_right before List.mem_cons_self)

theorem symbol_ne_literal {kind : Kind} {lexeme : Bytes} (h : IsSymbol kind lexeme) :
    kind ≠ .number ∧ kind ≠ .string := by
  have table : ∀ entry ∈ marks, entry.2 ≠ .number ∧ entry.2 ≠ .string := by decide
  have table' : ∀ entry ∈ extensible, (entry.2.1 ≠ .number ∧ entry.2.1 ≠ .string) ∧
      entry.2.2 ≠ .number ∧ entry.2.2 ≠ .string := by decide
  cases h with
  | mark h => exact table _ h
  | short h => exact (table' _ h).1
  | long h => exact (table' _ h).2
  | slash => exact ⟨nofun, nofun⟩

/-- `Literal p kind payload`: a piece that gives a literal token, and what it
gives. -/
inductive Literal : Piece → Kind → Payload → Prop
  | number (whole : Bytes) (fraction : Option Bytes) :
      Literal (.numeral whole fraction) .number
        (.double ((Decimal.ofNumeral whole (fraction.getD [])).toDouble false))
  | text (body : Bytes) : Literal (.text body) .string (.text body)

/-- Literal tokens come from numbers and texts only. -/
theorem literal_of_meaning {p : Piece} {kind : Kind} {payload : Payload} (proper : p.Proper)
    (h : p.meaning? = some (kind, payload)) (literal : kind = .number ∨ kind = .string) :
    Literal p kind payload := by
  cases p with
  | blank | comment | stray | unclosed => cases h
  | symbol kind lexeme =>
      cases h
      exact absurd literal (not_or.mpr (symbol_ne_literal proper))
  | word spelling =>
      cases h
      exact absurd literal (not_or.mpr (ofWord_ne_literal spelling))
  | numeral whole fraction =>
      cases h
      exact .number whole fraction
  | text body =>
      cases h
      exact .text body

/-- Literal tokens of a source, with the pieces they come from. -/
theorem literal_of_mem_tokens {source : Bytes} {t : Token} (member : t ∈ tokens source)
    (literal : t.kind = .number ∨ t.kind = .string) :
    ∃ p ∈ pieces source, p.Proper ∧ t.lexeme = p.bytes ∧ Literal p t.kind t.payload := by
  rcases exists_piece_of_mem_tokens member with rfl | ⟨p, here, meaning, lexeme⟩
  · rcases literal with h | h <;> cases h
  · have proper := proper_pieces here
    exact ⟨p, here, proper, lexeme, literal_of_meaning proper meaning literal⟩

end Source

end Reckon
