import Reckon.Proofs.Rounding
import Reckon.Proofs.Scanning

/-!
# The one way to cut a source

A source is cut into blanks, comments, tokens and offending pieces. What each of
them is depends on its own bytes and on what follows: a token has the form of its
kind and nothing behind it continues it (`Longest`), a comment reaches to the end
of its line, an offending piece is a byte that starts nothing or a string that is
never closed (`Role`). These rules do not say how a source is scanned, and

* every piece that the scanner cuts off obeys them (`role_of_proper`,
  `stopsAt_leading`);
* a cut that obeys them is the scanner's (`Factored.unique`);
* every offending piece lies inside a reported error (`covered_of_mem_place`).

`tokens_factored` puts this together for whole sources.
-/

namespace Reckon.Source

open Bytes (DigitRun)

/-! ## The rules -/

/-- `Longest rest kind lexeme payload`: ahead of the text `rest`, the bytes
`lexeme` are a token of this kind and payload, and nothing in `rest` continues
it. -/
inductive Longest (rest : Bytes) : Kind → Bytes → Payload → Prop
  | mark {b : UInt8} {kind : Kind} : (b, kind) ∈ marks → Longest rest kind [b] .absent
  | short {b : UInt8} {short long : Kind} : (b, short, long) ∈ extensible →
      rest.head? ≠ some Ascii.equals → Longest rest short [b] .absent
  | long {b : UInt8} {short long : Kind} : (b, short, long) ∈ extensible →
      Longest rest long [b, Ascii.equals] .absent
  | slash : rest.head? ≠ some Ascii.slash → Longest rest .slash [Ascii.slash] .absent
  | keyword {b : UInt8} {tail : Bytes} {kind : Kind} : isLetter b = true →
      (∀ c ∈ tail, isWordByte c = true) → Ends isWordByte rest →
      (b :: tail, kind) ∈ Kind.keywords → Longest rest kind (b :: tail) .absent
  | identifier {b : UInt8} {tail : Bytes} : isLetter b = true →
      (∀ c ∈ tail, isWordByte c = true) → Ends isWordByte rest →
      (∀ kind, (b :: tail, kind) ∉ Kind.keywords) → Longest rest .ident (b :: tail) .absent
  | whole {digits : Bytes} {d : Double} : DigitRun digits → Ends Bytes.isDigit rest →
      (∀ c more, rest = Ascii.point :: c :: more → Bytes.isDigit c = false) →
      NearestDouble digits [] d → Longest rest .number digits (.double d)
  | fraction {digits decimals : Bytes} {d : Double} : DigitRun digits → DigitRun decimals →
      Ends Bytes.isDigit rest → NearestDouble digits decimals d →
      Longest rest .number (digits ++ Ascii.point :: decimals) (.double d)
  | text {body : Bytes} : Ascii.quote ∉ body →
      Longest rest .string (Ascii.quote :: body ++ [Ascii.quote]) (.text body)

/-- `Role rest bytes meaning complaint`: what the bytes of a piece are ahead of the
text `rest`, with the token that they spell or what is wrong with them. -/
inductive Role (rest : Bytes) : Bytes → Option (Kind × Payload) → Option Bytes → Prop
  | blank {b : UInt8} :
      b ∈ [Ascii.space, Ascii.carriageReturn, Ascii.tab, Ascii.newline] → Role rest [b] none none
  | comment {body : Bytes} : Ascii.newline ∉ body →
      (rest = [] ∨ rest.head? = some Ascii.newline) →
      Role rest (Ascii.slash :: Ascii.slash :: body) none none
  | token {kind : Kind} {lexeme : Bytes} {payload : Payload} :
      Longest rest kind lexeme payload → Role rest lexeme (some (kind, payload)) none
  | stray {b : UInt8} : (Piece.stray b).Proper →
      Role rest [b] none (some (Bytes.ofString "Unexpected character."))
  | unclosed {body : Bytes} : Ascii.quote ∉ body → rest = [] →
      Role rest (Ascii.quote :: body) none (some (Bytes.ofString "Unterminated string."))

/-- An error of a list says what is wrong with a span, and where. -/
def Covered (errors : List ScanError) (line start stop : Nat) (message : Bytes) : Prop :=
  ∃ e ∈ errors, e.line = line ∧ e.start ≤ start ∧ stop ≤ e.stop ∧ e.message = message

/-- `Factored errors start line source cuts ts`: the text `source`, which starts at
an offset and on a line, is the concatenation of `cuts`; each of them has a role
ahead of what follows it, `ts` are the tokens among them, and those with something
wrong are covered by errors. -/
inductive Factored (errors : List ScanError) :
    Nat → Nat → Bytes → List Bytes → List Token → Prop
  | done {start line : Nat} : Factored errors start line [] [] []
  | cons {start line : Nat} {bytes rest : Bytes} {meaning : Option (Kind × Payload)}
      {complaint : Option Bytes} {cuts : List Bytes} {ts : List Token} :
      Role rest bytes meaning complaint →
      (∀ message ∈ complaint,
        Covered errors (line + Bytes.lineEnds bytes) start (start + bytes.length) message) →
      Factored errors (start + bytes.length) (line + Bytes.lineEnds bytes) rest cuts ts →
      Factored errors start line (bytes ++ rest) (bytes :: cuts)
        ((meaning.map fun (kind, payload) =>
          (⟨kind, bytes, (line + Bytes.lineEnds bytes : Nat), payload⟩ : Token)).toList ++ ts)

/-! ## Pieces stop where nothing continues them -/

theorem ends_dropWhile (p : UInt8 → Bool) (text : Bytes) : Ends p (text.dropWhile p) := by
  intro b member
  have refused := List.head?_dropWhile_not p text
  rw [Option.mem_def.mp member] at refused
  simpa using refused

/-- A text that starts with a symbol and is one itself is a mark with its equals
sign. -/
theorem extensible_of_isSymbol_append {kind : Kind} {lexeme : Bytes} {b : UInt8}
    (nonempty : lexeme ≠ []) (symbol : IsSymbol kind (lexeme ++ [b])) :
    b = Ascii.equals ∧ ∃ a short long, lexeme = [a] ∧ (a, short, long) ∈ extensible := by
  have single : ∀ c, lexeme ++ [b] ≠ [c] := by
    intro c same
    have lengths := congrArg List.length same
    have := List.length_pos_iff.mpr nonempty
    simp only [List.length_append, List.length_singleton] at lengths
    omega
  generalize whole : lexeme ++ [b] = text at symbol
  cases symbol with
  | mark | short | slash => exact absurd whole (single _)
  | long h =>
      have parts : lexeme ++ [b] = [_] ++ [Ascii.equals] := whole
      obtain ⟨rfl, last⟩ := List.append_inj' parts rfl
      exact ⟨List.head_eq_of_cons_eq last, _, _, _, rfl, h⟩

theorem marks_disjoint {b : UInt8} {kind : Kind} (h : (b, kind) ∈ marks) :
    b ≠ Ascii.slash ∧ ∀ short long, (b, short, long) ∉ extensible := by
  have table : ∀ entry ∈ marks, entry.1 ≠ Ascii.slash ∧
      ∀ other ∈ extensible, other.1 ≠ entry.1 := by decide
  obtain ⟨unslashed, apart⟩ := table _ h
  exact ⟨unslashed, fun short long member => apart _ member rfl⟩

theorem slash_not_extensible (short long : Kind) : (Ascii.slash, short, long) ∉ extensible := by
  have table : ∀ entry ∈ extensible, entry.1 ≠ Ascii.slash := by decide
  exact fun member => table _ member rfl

theorem mark_stopsAt_any {b : UInt8} {kind : Kind} (h : (b, kind) ∈ marks) (rest : Bytes) :
    (Piece.symbol kind [b]).StopsAt rest := by
  obtain ⟨unslashed, apart⟩ := marks_disjoint h
  intro c _
  refine ⟨fun other symbol => ?_, fun comment => ?_⟩
  · obtain ⟨_, a, short, long, same, member⟩ :=
      extensible_of_isSymbol_append (List.cons_ne_nil b []) symbol
    rw [← List.head_eq_of_cons_eq same] at member
    exact apart short long member
  · exact unslashed (List.head_eq_of_cons_eq comment)

theorem short_stopsAt {b : UInt8} {short long : Kind} (h : (b, short, long) ∈ extensible)
    {rest : Bytes} (ends : rest.head? ≠ some Ascii.equals) :
    (Piece.symbol short [b]).StopsAt rest := by
  intro c head
  refine ⟨fun other symbol => ?_, fun comment => ?_⟩
  · have equals := (extensible_of_isSymbol_append (List.cons_ne_nil b []) symbol).1
    rw [equals] at head
    exact ends head
  · rw [List.head_eq_of_cons_eq comment] at h
    exact slash_not_extensible short long h

theorem long_stopsAt (b : UInt8) (kind : Kind) (rest : Bytes) :
    (Piece.symbol kind [b, Ascii.equals]).StopsAt rest := by
  intro c _
  refine ⟨fun other symbol => ?_, fun comment => by cases comment⟩
  obtain ⟨_, a, _, _, same, _⟩ :=
    extensible_of_isSymbol_append (List.cons_ne_nil b [Ascii.equals]) symbol
  cases same

theorem slash_stopsAt {rest : Bytes} (ends : rest.head? ≠ some Ascii.slash) :
    (Piece.symbol .slash [Ascii.slash]).StopsAt rest := by
  intro c head
  refine ⟨fun other symbol => ?_, fun comment => ?_⟩
  · obtain ⟨_, a, short, long, same, member⟩ :=
      extensible_of_isSymbol_append (List.cons_ne_nil Ascii.slash []) symbol
    rw [← List.head_eq_of_cons_eq same] at member
    exact slash_not_extensible short long member
  · have last : c = Ascii.slash := List.head_eq_of_cons_eq (List.tail_eq_of_cons_eq comment)
    rw [last] at head
    exact ends head

theorem stopsAt_extended {b : UInt8} {short long : Kind} (h : (b, short, long) ∈ extensible)
    (rest : Bytes) : (extended b short long rest).1.StopsAt (extended b short long rest).2 := by
  unfold extended
  split
  · exact short_stopsAt h (by simp)
  · split
    · next equals =>
      rw [equals]
      exact long_stopsAt b long _
    · next differs => exact short_stopsAt h (by simpa using differs)

theorem stopsAt_slashed (rest : Bytes) : (slashed rest).1.StopsAt (slashed rest).2 := by
  unfold slashed
  split
  · exact slash_stopsAt (by simp)
  · split
    · exact ends_dropWhile _ _
    · next differs => exact slash_stopsAt (by simpa using differs)

theorem stopsAt_quotation (rest : Bytes) : (quotation rest).1.StopsAt (quotation rest).2 := by
  unfold quotation
  split
  · exact rfl
  · exact trivial

theorem stopsAt_numeral (b : UInt8) (rest : Bytes) :
    (numeral b rest).1.StopsAt (numeral b rest).2 := by
  have ends := ends_dropWhile Bytes.isDigit rest
  unfold numeral
  dsimp only
  split
  · next p d more heq =>
    rw [heq] at ends
    split
    · exact ends_dropWhile _ _
    · next plain =>
      refine ⟨ends, fun c after same => ?_⟩
      cases same
      exact Bool.eq_false_iff.mpr fun digit => plain ⟨rfl, digit⟩
  · next short =>
    refine ⟨ends, fun c after same => ?_⟩
    exact absurd same (short _ _ _)

/-- The first piece of a text stops where the rest of the text starts. -/
theorem stopsAt_leading (b : UInt8) (rest : Bytes) :
    (leading b rest).1.StopsAt (leading b rest).2 := by
  cases opening b with
  | mark h =>
      rw [leading_mark h]
      exact mark_stopsAt_any h rest
  | extensible h =>
      rw [leading_extensible h]
      exact stopsAt_extended h rest
  | slash h =>
      rw [h, leading_slash]
      exact stopsAt_slashed rest
  | blank h =>
      rw [leading_blank h]
      trivial
  | quote h =>
      rw [h, leading_quote]
      exact stopsAt_quotation rest
  | digit h =>
      rw [leading_digit h]
      exact stopsAt_numeral b rest
  | letter h =>
      rw [leading_letter h]
      exact ends_dropWhile _ _
  | stray h =>
      rw [leading_stray h]
      trivial

/-! ## Roles and pieces -/

theorem ofWord_of_mem {word : Bytes} {kind : Kind} (member : (word, kind) ∈ Kind.keywords) :
    Kind.ofWord word = kind := by
  have table : ∀ entry ∈ Kind.keywords, Kind.ofWord entry.1 = entry.2 := by decide
  exact table _ member

theorem ofWord_of_not_mem {word : Bytes} (absent : ∀ kind, (word, kind) ∉ Kind.keywords) :
    Kind.ofWord word = .ident := by
  have missing : Kind.keywords.lookup word = none := by
    rw [List.lookup_eq_none_iff]
    intro entry member
    refine bne_iff_ne.mpr fun same => absent entry.2 ?_
    rw [same]
    exact member
  rw [Kind.ofWord, Kind.keyword?, missing]
  rfl

theorem longest_word {b : UInt8} {tail rest : Bytes} (letter : isLetter b = true)
    (all : ∀ c ∈ tail, isWordByte c = true) (ends : Ends isWordByte rest) :
    Longest rest (Kind.ofWord (b :: tail)) (b :: tail) .absent := by
  by_cases known : ∃ kind, (b :: tail, kind) ∈ Kind.keywords
  · obtain ⟨kind, member⟩ := known
    rw [ofWord_of_mem member]
    exact .keyword letter all ends member
  · have absent : ∀ kind, (b :: tail, kind) ∉ Kind.keywords := fun kind member =>
      known ⟨kind, member⟩
    rw [ofWord_of_not_mem absent]
    exact .identifier letter all ends absent

theorem longest_symbol {kind : Kind} {lexeme rest : Bytes} (symbol : IsSymbol kind lexeme)
    (stops : (Piece.symbol kind lexeme).StopsAt rest) : Longest rest kind lexeme .absent := by
  cases symbol with
  | mark h => exact .mark h
  | short h =>
      -- an equals sign behind it would make the long symbol
      exact .short h fun equals => (stops _ equals).1 _ (.long h)
  | long h => exact .long h
  | slash => exact .slash fun slash => (stops _ slash).2 rfl

/-- What a piece of its proper form is, where nothing continues it. -/
theorem role_of_proper {p : Piece} {rest : Bytes} (proper : p.Proper) (stops : p.StopsAt rest) :
    Role rest p.bytes p.meaning? p.complaint? := by
  cases p with
  | blank b => exact .blank (isBlank_iff.mp proper)
  | comment body =>
      refine .comment proper ?_
      cases rest with
      | nil => exact .inl rfl
      | cons b rest =>
          have newline := stops b rfl
          exact .inr (by simpa using newline)
  | symbol kind lexeme => exact .token (longest_symbol proper stops)
  | word spelling =>
      obtain ⟨b, tail, rfl, letter, all⟩ := proper
      exact .token (longest_word letter all stops)
  | numeral whole fraction =>
      cases fraction with
      | none => exact .token (.whole proper.1 stops.1 stops.2 (nearestDouble_iff.mpr rfl))
      | some fraction =>
          exact .token
            (.fraction proper.1 (proper.2 fraction rfl) stops (nearestDouble_iff.mpr rfl))
  | text body => exact .token (.text proper)
  | stray b => exact .stray proper
  | unclosed body => exact .unclosed proper stops

/-- `Embodies p rest bytes meaning complaint`: a piece that the scanner cuts off
before `rest`, and what it comes to. -/
structure Embodies (p : Piece) (rest bytes : Bytes) (meaning : Option (Kind × Payload))
    (complaint : Option Bytes) : Prop where
  proper : p.Proper
  stops : p.StopsAt rest
  bytes : p.bytes = bytes
  meaning : p.meaning? = meaning
  complaint : p.complaint? = complaint

theorem Longest.exists_piece {rest lexeme : Bytes} {kind : Kind} {payload : Payload}
    (h : Longest rest kind lexeme payload) :
    ∃ p, Embodies p rest lexeme (some (kind, payload)) none := by
  cases h with
  | mark h => exact ⟨.symbol kind _, .mark h, mark_stopsAt_any h rest, rfl, rfl, rfl⟩
  | short h ends => exact ⟨.symbol kind _, .short h, short_stopsAt h ends, rfl, rfl, rfl⟩
  | long h => exact ⟨.symbol kind _, .long h, long_stopsAt _ kind rest, rfl, rfl, rfl⟩
  | slash ends => exact ⟨.symbol .slash _, .slash, slash_stopsAt ends, rfl, rfl, rfl⟩
  | keyword letter all ends member =>
      refine ⟨.word (_ :: _), ⟨_, _, rfl, letter, all⟩, ends, rfl, ?_, rfl⟩
      rw [Piece.meaning?, ofWord_of_mem member]
  | identifier letter all ends absent =>
      refine ⟨.word (_ :: _), ⟨_, _, rfl, letter, all⟩, ends, rfl, ?_, rfl⟩
      rw [Piece.meaning?, ofWord_of_not_mem absent]
  | whole run ends unpointed value =>
      refine ⟨.numeral lexeme none, ⟨run, fun _ member => by cases member⟩, ⟨ends, unpointed⟩,
        rfl, ?_, rfl⟩
      rw [nearestDouble_iff.mp value]
      rfl
  | fraction run run' ends value =>
      refine ⟨.numeral _ (some _), ⟨run, fun _ member => ?_⟩, ends, rfl, ?_, rfl⟩
      · cases member
        exact run'
      · rw [nearestDouble_iff.mp value]
        rfl
  | text proper => exact ⟨.text _, proper, trivial, rfl, rfl, rfl⟩

theorem Role.exists_piece {rest bytes : Bytes} {meaning : Option (Kind × Payload)}
    {complaint : Option Bytes} (h : Role rest bytes meaning complaint) :
    ∃ p, Embodies p rest bytes meaning complaint := by
  cases h with
  | blank member => exact ⟨.blank _, isBlank_iff.mpr member, trivial, rfl, rfl, rfl⟩
  | comment proper ended =>
      refine ⟨.comment _, proper, fun b head => ?_, rfl, rfl, rfl⟩
      rcases ended with rfl | newline
      · cases head
      · rw [Option.some.inj (head.symm.trans newline)]
        decide
  | token longest => exact longest.exists_piece
  | stray proper => exact ⟨.stray _, proper, trivial, rfl, rfl, rfl⟩
  | unclosed proper ended => exact ⟨.unclosed _, proper, ended, rfl, rfl, rfl⟩

/-! ## Offending pieces are covered -/

/-- An error that says the same as another one, of a span that contains its span. -/
def Widens (wide narrow : ScanError) : Prop :=
  wide.line = narrow.line ∧ wide.message = narrow.message ∧ wide.start ≤ narrow.start ∧
    narrow.stop ≤ wide.stop

theorem Widens.refl (e : ScanError) : Widens e e := ⟨rfl, rfl, Int.le_refl _, Int.le_refl _⟩

/-- Joining errors that continue one another leaves none of them out. -/
theorem joinRuns_widens {errors : List ScanError} (ordered : ∀ e ∈ errors, e.start ≤ e.stop) :
    (∀ e ∈ ScanError.joinRuns errors, e.start ≤ e.stop) ∧
      ∀ e ∈ errors, ∃ wide ∈ ScanError.joinRuns errors, Widens wide e := by
  -- that the joined spans are in order goes along, for it lets the next one be swallowed
  fun_induction ScanError.joinRuns errors with
  | case1 => exact ⟨ordered, fun e member => absurd member List.not_mem_nil⟩
  | case2 first rest joined ih =>
      have here := ordered first List.mem_cons_self
      obtain ⟨_, widened⟩ := ih fun e member => ordered e (List.mem_cons_of_mem first member)
      refine ⟨fun e member => List.mem_singleton.mp member ▸ here, fun e member => ?_⟩
      rcases List.mem_cons.mp member with rfl | later
      · exact ⟨e, List.mem_cons_self, .refl e⟩
      · obtain ⟨wide, inside, _⟩ := widened e later
        rw [joined] at inside
        cases inside
  | case3 first rest f more joined touch ih =>
      have here := ordered first List.mem_cons_self
      obtain ⟨order, widened⟩ := ih fun e member => ordered e (List.mem_cons_of_mem first member)
      rw [joined] at order widened
      simp only [ScanError.continues, Bool.and_eq_true, beq_iff_eq] at touch
      obtain ⟨⟨line, adjoin⟩, message⟩ := touch
      have next := order f List.mem_cons_self
      refine ⟨fun e member => ?_, fun e member => ?_⟩
      · rcases List.mem_cons.mp member with rfl | later
        · show first.start ≤ f.stop
          omega
        · exact order e (List.mem_cons_of_mem f later)
      · rcases List.mem_cons.mp member with rfl | later
        · refine ⟨_, List.mem_cons_self, rfl, rfl, Int.le_refl _, ?_⟩
          show e.stop ≤ f.stop
          omega
        · obtain ⟨wide, inside, sameLine, sameMessage, low, high⟩ := widened e later
          -- the joined error takes the place of the one it swallows
          rcases List.mem_cons.mp inside with rfl | behind
          · refine ⟨_, List.mem_cons_self, line.trans sameLine, message.trans sameMessage, ?_, high⟩
            show first.start ≤ e.start
            omega
          · exact ⟨wide, List.mem_cons_of_mem _ behind, sameLine, sameMessage, low, high⟩
  | case4 first rest f more joined apart ih =>
      have here := ordered first List.mem_cons_self
      obtain ⟨order, widened⟩ := ih fun e member => ordered e (List.mem_cons_of_mem first member)
      rw [joined] at order widened
      refine ⟨fun e member => ?_, fun e member => ?_⟩
      · rcases List.mem_cons.mp member with rfl | later
        · exact here
        · exact order e later
      · rcases List.mem_cons.mp member with rfl | later
        · exact ⟨e, List.mem_cons_self, .refl e⟩
        · obtain ⟨wide, inside, widens⟩ := widened e later
          exact ⟨wide, List.mem_cons_of_mem first inside, widens⟩

/-- An offending piece lies inside a reported error. -/
theorem covered_of_mem_place {source : Bytes} {placed : Placed} {message : Bytes}
    (member : placed ∈ place 0 1 (pieces source)) (wrong : placed.piece.complaint? = some message) :
    Covered (errors source) placed.line placed.start placed.stop message := by
  have ordered : ∀ e ∈ (place 0 1 (pieces source)).filterMap Placed.error?, e.start ≤ e.stop := by
    intro e inside
    obtain ⟨other, _, error⟩ := List.mem_filterMap.mp inside
    obtain ⟨_, _, rfl⟩ := Option.map_eq_some_iff.mp error
    show (other.start : Int) ≤ other.stop
    exact Int.ofNat_le.mpr (Nat.le_add_right _ _)
  have error : placed.error? = some ⟨placed.line, placed.start, placed.stop, message⟩ := by
    rw [Placed.error?, wrong]
    rfl
  obtain ⟨wide, inside, line, text, low, high⟩ :=
    (joinRuns_widens ordered).2 _ (List.mem_filterMap.mpr ⟨placed, member, error⟩)
  exact ⟨wide, inside, line, low, high, text⟩

/-! ## Cuts -/

theorem filterMap_place_cons (start line : Nat) (p : Piece) (rest : List Piece) :
    (place start line (p :: rest)).filterMap Placed.token? =
      (p.meaning?.map fun (kind, payload) =>
        (⟨kind, p.bytes, (line + Bytes.lineEnds p.bytes : Nat), payload⟩ : Token)).toList ++
      (place (start + p.bytes.length) (line + Bytes.lineEnds p.bytes) rest).filterMap
        Placed.token? := by
  rw [place, List.filterMap_cons, Placed.token?]
  cases p.meaning? <;> rfl

/-- The pieces of a source obey the rules. -/
theorem factored_pieces {errors : List ScanError} (source : Bytes) {start line : Nat}
    (covered : ∀ placed ∈ place start line (pieces source), ∀ message ∈ placed.piece.complaint?,
      Covered errors placed.line placed.start placed.stop message) :
    Factored errors start line source ((pieces source).map Piece.bytes)
      ((place start line (pieces source)).filterMap Placed.token?) := by
  fun_induction pieces source generalizing start line with
  | case1 => exact .done
  | case2 b rest ih =>
      have role := role_of_proper (proper_leading b rest) (stopsAt_leading b rest)
      have whole := bytes_leading b rest
      generalize (leading b rest).1 = p, (leading b rest).2 = after at *
      have here := covered _ List.mem_cons_self
      have later := ih fun placed inside => covered placed (List.mem_cons_of_mem _ inside)
      rw [← whole, List.map_cons, filterMap_place_cons]
      exact .cons role here later

/-- Whatever obeys the rules is the cut into pieces. -/
theorem Factored.unique {errors : List ScanError} {start line : Nat} {source : Bytes}
    {cuts : List Bytes} {ts : List Token} (h : Factored errors start line source cuts ts) :
    cuts = (pieces source).map Piece.bytes ∧
      ts = (place start line (pieces source)).filterMap Placed.token? := by
  induction h with
  | done =>
      rw [pieces]
      exact ⟨rfl, rfl⟩
  | cons role _ _ ih =>
      obtain ⟨p, proper, stops, rfl, rfl, rfl⟩ := role.exists_piece
      obtain ⟨sameCuts, sameTokens⟩ := ih
      rw [pieces_append proper stops, filterMap_place_cons, List.map_cons, ← sameCuts,
        ← sameTokens]
      exact ⟨rfl, rfl⟩

theorem Longest.ne_eof {rest lexeme : Bytes} {kind : Kind} {payload : Payload}
    (h : Longest rest kind lexeme payload) : kind ≠ .eof := by
  have table : ∀ entry ∈ marks, entry.2 ≠ .eof := by decide
  have table' : ∀ entry ∈ extensible, entry.2.1 ≠ .eof ∧ entry.2.2 ≠ .eof := by decide
  have table'' : ∀ entry ∈ Kind.keywords, entry.2 ≠ .eof := by decide
  cases h with
  | mark h => exact table _ h
  | short h => exact (table' _ h).1
  | long h => exact (table' _ h).2
  | keyword _ _ _ member => exact table'' _ member
  | slash | identifier | whole | fraction | text => exact nofun

theorem Role.ne_nil {rest bytes : Bytes} {meaning : Option (Kind × Payload)}
    {complaint : Option Bytes} (h : Role rest bytes meaning complaint) : bytes ≠ [] := by
  cases h with
  | token longest =>
      cases longest with
      | whole run => exact run.1
      | fraction => simp
      | mark | short | long | slash | keyword | identifier | text => simp
  | blank | comment | stray | unclosed => simp

/-- What a cut into pieces gives back. -/
theorem Factored.parts {errors : List ScanError} {start line : Nat} {source : Bytes}
    {cuts : List Bytes} {ts : List Token} (h : Factored errors start line source cuts ts) :
    cuts.flatten = source ∧ (∀ cut ∈ cuts, cut ≠ []) ∧ ∀ t ∈ ts, t.kind ≠ .eof := by
  induction h with
  | done => simp
  | cons role _ _ ih =>
      obtain ⟨whole, nonempty, inner⟩ := ih
      refine ⟨?_, ?_, ?_⟩
      · rw [List.flatten_cons, whole]
      · intro cut member
        rcases List.mem_cons.mp member with rfl | later
        · exact role.ne_nil
        · exact nonempty cut later
      · intro t member
        rcases List.mem_append.mp member with here | later
        · cases role with
          | token longest =>
              rw [List.mem_singleton.mp here]
              exact longest.ne_eof
          | blank | comment | stray | unclosed => cases here
        · exact inner t later

/-- **A source is cut in one way, and its tokens are the cut's.** Every source is a
concatenation of non-empty cuts, each of which is a blank, a comment up to the end
of its line, a token that nothing behind it continues, or an offending piece inside
a reported error. There is no other way to cut it so. The tokens of the source are
those of the cut, in order and with the bytes of the cut, and one token behind them
that marks the end. -/
theorem tokens_factored (source : Bytes) :
    ∃ cuts ts, Factored (errors source) 0 1 source cuts ts ∧
      (∀ cuts' ts', Factored (errors source) 0 1 source cuts' ts' → cuts' = cuts ∧ ts' = ts) ∧
      cuts.flatten = source ∧ (∀ cut ∈ cuts, cut ≠ []) ∧
      tokens source = ts ++ [⟨.eof, [], (1 + Bytes.lineEnds source : Nat), .absent⟩] ∧
      ∀ t ∈ ts, t.kind ≠ .eof := by
  have factored := factored_pieces source fun placed member message wrong =>
    covered_of_mem_place member wrong
  obtain ⟨whole, nonempty, inner⟩ := factored.parts
  refine ⟨_, _, factored, fun cuts ts other => other.unique, whole, nonempty, rfl, inner⟩

end Reckon.Source
