import Reckon.Document.Outline
import Reckon.Proofs.Characters

/-!
# Lexemes of a document

A document can be written on one line, with texts between double quotes, lists and tables
between brackets, and a mark before every key. Its lexemes are found one after another:

* any text can be written between double quotes, and is read as what it was
  (`doubleQuoted_inQuotes`);
* `Outline.Stands` says where an outline stands on such a line, and each of the lexemes
  leads to where the next one starts (`Stands.openFlow` to `Stands.finish`);
* `Outline.Takes` says which lexemes some characters are taken as, wherever they are ahead.
  Parts are put together by `Takes.append`, `takes_list` and `takes_table`.
-/

namespace Reckon

namespace Document

/-! ## Quoted texts -/

/-- The last `width` hexadecimal digits of a number. -/
def hexChars : (width : Nat) → Nat → List Char
  | 0, _ => []
  | width + 1, n => hexChars width (n / 16) ++ [Nat.digitChar (n % 16)]

/-- Whether a character can stand for itself between double quotes. -/
def isPlainly (c : Char) : Bool :=
  c == ' ' || (isAdmitted c.toNat && !isGap c && !"\x22\\\r\u0085".toList.contains c)

/-- A character between double quotes; most stand for themselves, the others are written
by their number. -/
def spell (c : Char) : List Char :=
  if isPlainly c then [c] else '\\' :: 'U' :: hexChars 8 c.toNat

/-- A text between double quotes. -/
def inQuotes (cs : List Char) : List Char := doubleQuote :: cs.flatMap spell ++ [doubleQuote]

/-- Whether a character can stand on a line as it is. -/
def isInline (c : Char) : Bool :=
  isAdmitted c.toNat && !isBreak c && c != '\r' && c != '\u0085'

/-- What stands for itself is a space or no gap, and neither a quote nor a backslash. -/
theorem isPlainly_cases {c : Char} (plainly : isPlainly c = true) :
    c = ' ' ∨ (isAdmitted c.toNat = true ∧ isGap c = false ∧ c ≠ doubleQuote ∧ c ≠ '\\' ∧
      c ≠ '\r' ∧ c ≠ '\u0085') := by
  simpa [isPlainly, doubleQuote, and_assoc] using plainly

theorem isInline_digitChar : ∀ d < 16, isInline (Nat.digitChar d) = true := by
  decide

theorem isInline_hexChars {width n : Nat} {x : Char} (member : x ∈ hexChars width n) :
    isInline x = true := by
  induction width generalizing n with
  | zero => cases member
  | succ width ih =>
      rcases List.mem_append.mp member with earlier | last
      · exact ih earlier
      · rw [List.mem_singleton.mp last]
        exact isInline_digitChar _ (Nat.mod_lt n (by decide))

theorem isInline_inQuotes {cs : List Char} {x : Char} (member : x ∈ inQuotes cs) :
    isInline x = true := by
  have quote : isInline doubleQuote = true := by decide
  rcases List.mem_append.mp member with inside | last
  · rcases List.mem_cons.mp inside with rfl | spelled
    · exact quote
    · obtain ⟨c, -, part⟩ := List.mem_flatMap.mp spelled
      unfold spell at part
      split at part
      case isTrue plainly =>
        rw [List.mem_singleton.mp part]
        rcases isPlainly_cases plainly with rfl | ⟨admitted, solid, -, -, return_, next⟩
        · decide
        · simp_all [isInline, isGap]
      case isFalse =>
        rcases List.mem_cons.mp part with rfl | part
        · decide
        rcases List.mem_cons.mp part with rfl | digit
        · decide
        · exact isInline_hexChars digit
  · rw [List.mem_singleton.mp last]
    exact quote

theorem hexValue?_digitChar : ∀ d < 16, hexValue? (Nat.digitChar d) = some d := by
  decide

theorem hexNumber?_hexChars {width n : Nat} (fits : n < 16 ^ width) :
    hexNumber? (hexChars width n) = some n := by
  unfold hexNumber?
  induction width generalizing n with
  | zero =>
      have zero : n = 0 := by simpa using fits
      rw [zero]
      rfl
  | succ width ih =>
      have higher : n / 16 < 16 ^ width := by
        rw [Nat.pow_succ] at fits
        omega
      rw [hexChars, List.foldlM_append, ih higher]
      simp [hexValue?_digitChar _ (Nat.mod_lt n (by decide))]
      omega

theorem hexEscape?_hexChars (c : Char) : hexEscape? (hexChars 8 c.toNat) = some c := by
  have valid : c.toNat < 0xD800 ∨ 0xDFFF < c.toNat ∧ c.toNat < 0x110000 := c.valid
  rw [hexEscape?, hexNumber?_hexChars (by omega)]
  simp
  omega

theorem doubleQuoted_number (c : Char) (g : Gap) (column : Nat) (rest : List Char) :
    doubleQuoted g column ('\\' :: 'U' :: hexChars 8 c.toNat ++ rest) =
      (doubleQuoted .none (column + 10) rest).map fun (text, after) =>
        (g.folded ++ c :: text, after) := by
  have digits := hexEscape?_hexChars c
  simp only [hexChars, List.nil_append, List.cons_append] at digits ⊢
  rw [doubleQuoted, digits]
  simp [Option.map_eq_bind]

/-- A character that is no backslash stands for itself, ends the text or adds to a gap. -/
theorem doubleQuoted_cons {c : Char} (other : c ≠ '\\') (g : Gap) {column : Nat}
    (inside : 0 < column) (rest : List Char) :
    doubleQuoted g column (c :: rest) =
      if isGap c then doubleQuoted (g.add c) (if isBreak c then 0 else column + 1) rest
      else if c == doubleQuote then some (g.folded, rest)
      else (doubleQuoted .none (column + 1) rest).map fun (text, after) =>
        (g.folded ++ c :: text, after) := by
  have elsewhere : (column == 0) = false := by simp; omega
  have unescaped : (c == '\\') = false := by simpa using other
  rw [doubleQuoted]
  · simp [elsewhere, unescaped, Option.map_eq_bind]
  all_goals simp_all

/-- **A text between double quotes is read as what it was.** Blanks before it are a gap. -/
theorem doubleQuoted_inQuotes (cs : List Char) (blanks : List Char) {column : Nat}
    (inside : 0 < column) (rest : List Char) :
    doubleQuoted (.blanks blanks) column (cs.flatMap spell ++ doubleQuote :: rest) =
      some (blanks ++ cs, rest) := by
  induction cs generalizing blanks column with
  | nil =>
      rw [List.flatMap_nil, List.nil_append, doubleQuoted_cons (by decide) _ inside,
        if_neg (by decide), if_pos (by decide)]
      simp [Gap.folded]
  | cons c cs ih =>
      rw [List.flatMap_cons, List.append_assoc, spell]
      split
      case isTrue plainly =>
        rcases isPlainly_cases plainly with rfl | ⟨-, solid, unquote, unescaped, -⟩
        · have space : isGap ' ' = true := by decide
          have later := ih (blanks ++ [' ']) (Nat.succ_pos column)
          rw [List.singleton_append, doubleQuoted_cons (by decide) _ inside, if_pos space]
          simpa [Gap.add, isBreak] using later
        · have later := ih [] (Nat.succ_pos column)
          rw [List.singleton_append, doubleQuoted_cons unescaped _ inside, Gap.none]
          simp [solid, unquote, later, Gap.folded]
      case isFalse =>
        rw [doubleQuoted_number, Gap.none, ih [] (by omega)]
        rfl

/-! ## Lexemes -/

/-- The characters at which the lexemes of a written document start. -/
def openings : List Char := [doubleQuote, '[', ']', '\x7b', '\x7d', ',', '?', ':']

theorem solid_of_opening : ∀ c ∈ openings, isBreak c = false ∧ c ≠ ' ' ∧ c ≠ '\t' ∧ c ≠ '#' ∧
    c ≠ '\uFEFF' ∧ c ≠ '%' ∧ c ≠ '-' ∧ c ≠ '.' := by
  simp [openings, isBreak, doubleQuote]

/-- What follows a lexeme is no comment on its line. -/
def Unremarked (rest : List Char) : Prop := (rest.dropWhile isBlank).head? ≠ some '#'

theorem unremarked_cons {c : Char} (opening : c ∈ openings) (rest : List Char) :
    Unremarked (c :: rest) := by
  have solid := solid_of_opening c opening
  simp [Unremarked, isBlank, solid]

theorem unremarked_space {rest : List Char} (h : Unremarked rest) : Unremarked (' ' :: rest) := by
  simpa [Unremarked, isBlank] using h

theorem Cursor.advance_length (read rest : List Char) (line column : Nat)
    (flat : ∀ x ∈ read, isBreak x = false) :
    advance read.length ⟨read ++ rest, line, column⟩ = ⟨rest, line, column + read.length⟩ := by
  induction read generalizing column with
  | nil => rfl
  | cons x read ih =>
      have level := flat x List.mem_cons_self
      have later := ih (column + 1) fun y member => flat y (List.mem_cons_of_mem _ member)
      rw [List.cons_append, List.length_cons, advance]
      simp only [level, Bool.false_eq_true, if_false, later]
      rw [Nat.add_right_comm, Nat.add_assoc]

theorem Cursor.moveTo_eq {c : Cursor} {read rest : List Char} (ahead : c.rest = read ++ rest)
    (flat : ∀ x ∈ read, isBreak x = false) :
    c.moveTo rest = ⟨rest, c.line, c.column + read.length⟩ := by
  obtain ⟨_, line, column⟩ := c
  subst ahead
  simp [moveTo, advance_length read rest line column flat]

theorem Cursor.skipRemark_eq {c : Cursor} (none : Unremarked c.rest) : c.skipRemark = c := by
  unfold skipRemark
  split
  next same => exact absurd (by rw [same]; rfl) none
  next => rfl

namespace Outline

/-- Where an outline stands on the one line of a written document: what is ahead, what the
lexemes found say, and how many brackets are open. Nothing requires a key. -/
structure Stands (o : Outline) (rest : List Char) (signs : List Sign) (depth : Nat) : Prop where
  rest : o.cursor.rest = rest
  line : o.cursor.line = 1
  lexemes : o.lexemes = signs.map (Lexeme.mk 1)
  indent : o.indent = -1
  outer : o.outer = []
  depth : o.starts.length = depth
  start : ∀ k, o.start? = some k → k.required = false
  starts : ∀ k, some k ∈ o.starts → k.required = false
  whole : o.whole = true

variable {o : Outline} {rest : List Char} {signs : List Sign} {depth : Nat}

/-- No block collection is open that could end. -/
theorem Stands.closeBlocks_eq (h : o.Stands rest signs depth) (column : Int) :
    o.closeBlocks column = o := by
  unfold closeBlocks
  rw [h.outer]
  split <;> rfl

theorem Stands.approach_eq (h : o.Stands rest signs depth)
    (solid : ∀ c ∈ rest.head?, c ∈ openings) : o.approach = o := by
  have still : o.cursor.skip o.inFlow o.keys = (o.keys, o.cursor) := by
    rw [Cursor.skip, h.rest]
    cases rest with
    | nil => simp [Cursor.skipFrom, ← h.rest]
    | cons c rest => simp [Cursor.skipFrom, solid_of_opening c (solid c rfl), ← h.rest]
  simp only [approach, still, h.closeBlocks_eq]

/-- The next lexeme is the one that starts with the character ahead. -/
theorem Stands.next_eq {c : Char} (h : o.Stands (c :: rest) signs depth)
    (opening : c ∈ openings) {o' : Outline} (taken : o.takeAt c rest = some o')
    (whole : o'.whole = true) : o.next = some o' := by
  obtain ⟨-, -, -, -, -, percent, dash, point⟩ := solid_of_opening c opening
  have inside : atBoundary (c :: rest) = false := by
    unfold atBoundary
    split
    next same => exact absurd (List.head_eq_of_cons_eq same) dash
    next same => exact absurd (List.head_eq_of_cons_eq same) point
    next => rfl
  have approached := h.approach_eq (by simpa using opening)
  simp [next, approached, take, h.rest, sees, h.whole, percent, inside, taken, whole]

/-- A blank before a lexeme is skipped, as if the outline stood behind it. -/
theorem Stands.space (h : o.Stands (' ' :: rest) signs depth) :
    ∃ o' : Outline, o'.next = o.next ∧ o'.start? = o.start? ∧ o'.keys = o.keys ∧
      o'.Stands rest signs depth := by
  have skipped (flow keys : Bool) : o.cursor.skip flow keys =
      (⟨rest, o.cursor.line, o.cursor.column + 1⟩ : Cursor).skip flow keys := by
    rw [Cursor.skip, h.rest, Cursor.skipFrom]
    simp [Cursor.skip, isBreak]
  have approached :
      approach { o with cursor := ⟨rest, o.cursor.line, o.cursor.column + 1⟩ } = o.approach := by
    simp only [approach, inFlow, skipped]
  refine ⟨{ o with cursor := ⟨rest, o.cursor.line, o.cursor.column + 1⟩ }, ?_, rfl, rfl,
    { h with rest := rfl, line := h.line }⟩
  rw [next, next, approached]

/-! ### One lexeme -/

/-- Taking a lexeme moves on and leaves everything else to what the lexeme is. -/
theorem Stands.add (read : List Char) (h : o.Stands (read ++ rest) signs depth)
    (flat : ∀ x ∈ read, isBreak x = false) (unremarked : Unremarked rest) (sign : Sign)
    (keys : Bool) (noted start? : Option KeyStart) {starts : List (Option KeyStart)}
    (startFree : ∀ k, start? = some k → k.required = false)
    (startsFree : ∀ k, some k ∈ starts → k.required = false) :
    (skipRemark { ({ o with start? := noted }.add sign).moveTo rest with
      keys, start?, starts }).Stands rest (signs ++ [sign]) starts.length := by
  have moved : (o.cursor.moveTo rest).skipRemark =
      ⟨rest, o.cursor.line, o.cursor.column + read.length⟩ := by
    rw [Cursor.moveTo_eq h.rest flat]
    exact Cursor.skipRemark_eq unremarked
  exact {
    rest := congrArg Cursor.rest moved
    line := (congrArg Cursor.line moved).trans h.line
    lexemes := by simp [skipRemark, Outline.moveTo, Outline.add, h.lexemes, h.line]
    indent := h.indent
    outer := h.outer
    depth := rfl
    start := startFree
    starts := startsFree
    whole := h.whole }

/-- Taking a lexeme of one character. -/
theorem Stands.addMark {c : Char} (opening : c ∈ openings) (h : o.Stands (c :: rest) signs depth)
    (unremarked : Unremarked rest) (sign : Sign) (keys : Bool) (noted start? : Option KeyStart)
    {starts : List (Option KeyStart)} (startFree : ∀ k, start? = some k → k.required = false)
    (startsFree : ∀ k, some k ∈ starts → k.required = false) :
    (skipRemark { ({ o with start? := noted }.add sign).moveTo rest with
      keys, start?, starts }).Stands rest (signs ++ [sign]) starts.length :=
  h.add [c] (List.forall_mem_singleton.mpr (solid_of_opening c opening).1) unremarked sign keys
    noted start? startFree startsFree

theorem Stands.dropStart_eq (h : o.Stands rest signs depth) :
    o.dropStart = some { o with start? := none } := by
  unfold dropStart
  split
  next k same =>
    rw [h.start k same]
    rfl
  next none => rw [← none]

/-- Noting where a key may start forgets the place before and requires no key. -/
theorem Stands.noteStart_eq (h : o.Stands rest signs depth) :
    ∃ start?, o.noteStart = some { o with start? } ∧
      (∀ k, start? = some k → k.required = false) ∧
      (o.keys = false → start? = o.start?) := by
  by_cases keys : o.keys = true
  · have outside : (o.indent == (o.cursor.column : Int)) = false := by
      rw [h.indent]
      simp
    refine ⟨some ⟨o.lexemes.length, o.cursor.line, o.cursor.column, false, true⟩, ?_, ?_,
      fun none => absurd keys (by simp [none])⟩
    · rw [noteStart, if_pos keys, h.dropStart_eq]
      simp [outside]
    · rintro k ⟨⟩
      rfl
  · exact ⟨o.start?, if_neg keys, h.start, fun _ => rfl⟩

theorem Stands.inFlow (h : o.Stands rest signs (depth + 1)) : o.inFlow = true := by
  obtain ⟨start?, starts, around⟩ := List.exists_cons_of_length_eq_add_one h.depth
  simp [Outline.inFlow, around]

theorem takeBlockMark_eq (inside : o.inFlow = true) (sign collection : Sign) :
    o.takeBlockMark sign collection rest =
      o.dropStart.map fun o => (o.add sign).moveTo rest := by
  simp [takeBlockMark, openBlock, inside, Option.map_eq_bind]

theorem Stands.openFlow {c : Char} {sign : Sign} (opening : c ∈ openings)
    (taken : o.takeAt c rest = (o.openFlow sign rest).map skipRemark)
    (h : o.Stands (c :: rest) signs depth) (room : depth < maxDepth)
    (unremarked : Unremarked rest) :
    ∃ o', o.next = some o' ∧ o'.Stands rest (signs ++ [sign]) (depth + 1) := by
  obtain ⟨start?, noted, optional, -⟩ := h.noteStart_eq
  have starts : ∀ k, some k ∈ start? :: o.starts → k.required = false := by
    intro k member
    rcases List.mem_cons.mp member with same | member
    · exact optional k same.symm
    · exact h.starts k member
  have opened := h.addMark opening unremarked sign true start? none nofun starts
  refine ⟨_, h.next_eq opening (taken.trans ?_) opened.whole, h.depth ▸ opened⟩
  rw [Outline.openFlow, noted, Option.bind_eq_bind, Option.bind_some,
    if_neg (by rw [h.depth]; omega)]
  rfl

theorem Stands.closeFlow {c : Char} {sign : Sign} (opening : c ∈ openings)
    (taken : o.takeAt c rest = (o.closeFlow sign rest).map skipRemark)
    (h : o.Stands (c :: rest) signs (depth + 1)) (unremarked : Unremarked rest) :
    ∃ o', o.next = some o' ∧ o'.Stands rest (signs ++ [sign]) depth := by
  obtain ⟨start?, outside, around⟩ := List.exists_cons_of_length_eq_add_one h.depth
  have depth_eq : outside.length = depth := by simpa [around] using h.depth
  -- the place before the bracket waits no longer if nothing is between the brackets
  have start : ∀ k, (start?.map fun k =>
      if k.position + 1 == o.lexemes.length then { k with awaited := false } else k) = some k →
        k.required = false := by
    intro k same
    obtain ⟨k', rfl, rfl⟩ := Option.map_eq_some_iff.mp same
    have optional := h.starts k' (by simp [around])
    split <;> exact optional
  have starts : ∀ k, some k ∈ outside → k.required = false :=
    fun k member => h.starts k (by simp [around, member])
  have closed := h.addMark opening unremarked sign false none _ start starts
  refine ⟨_, h.next_eq opening (taken.trans ?_) closed.whole, depth_eq ▸ closed⟩
  rw [Outline.closeFlow, h.dropStart_eq, Option.bind_eq_bind, Option.bind_some]
  simp only [around]
  rfl

theorem Stands.takeComma (h : o.Stands (',' :: rest) signs depth)
    (unremarked : Unremarked rest) :
    ∃ o', o.next = some o' ∧ o'.Stands rest (signs ++ [.comma]) depth := by
  have parted := h.addMark (by decide) unremarked .comma true none none nofun h.starts
  refine ⟨_, h.next_eq (by decide) ?_ parted.whole, h.depth ▸ parted⟩
  show (o.takeComma rest).map skipRemark = _
  rw [Outline.takeComma, h.dropStart_eq]
  rfl

/-- After the mark of a key, nothing is taken for a key by itself. -/
theorem Stands.takeKey (h : o.Stands ('?' :: rest) signs (depth + 1))
    (unremarked : Unremarked rest) :
    ∃ o', o.next = some o' ∧ o'.start? = none ∧ o'.keys = false ∧
      o'.Stands rest (signs ++ [.key]) (depth + 1) := by
  have marked := h.addMark (by decide) unremarked .key false none none nofun h.starts
  have taken : o.takeAt '?' rest = (o.takeKey rest).map skipRemark := by
    unfold takeAt
    simp [h.inFlow, takeAt.remarked]
  refine ⟨_, h.next_eq (by decide) (taken.trans ?_) marked.whole, rfl, rfl, h.depth ▸ marked⟩
  rw [Outline.takeKey, takeBlockMark_eq h.inFlow, h.dropStart_eq, h.inFlow]
  rfl

theorem Stands.takeValue (h : o.Stands (':' :: rest) signs (depth + 1))
    (marked : o.start? = none) (unremarked : Unremarked rest) :
    ∃ o', o.next = some o' ∧ o'.Stands rest (signs ++ [.value]) (depth + 1) := by
  have valued := h.addMark (by decide) unremarked .value false o.start? o.start? h.start h.starts
  have taken : o.takeAt ':' rest = (o.takeValue rest).map skipRemark := by
    unfold takeAt
    simp [h.inFlow, takeAt.remarked]
  have unkeyed : o.takeValue rest = takeValue.unkeyed rest o := by
    rw [Outline.takeValue, marked]
  refine ⟨_, h.next_eq (by decide) (taken.trans ?_) valued.whole, h.depth ▸ valued⟩
  rw [unkeyed, takeValue.unkeyed, if_pos h.inFlow]
  rfl

/-- A text is a key by itself only where a key may start. -/
theorem Stands.takeText {cs : List Char} (h : o.Stands (inQuotes cs ++ rest) signs depth)
    (unremarked : Unremarked rest) :
    ∃ o', o.next = some o' ∧ (o.keys = false → o'.start? = o.start?) ∧
      o'.Stands rest (signs ++ [.scalar false (encoded cs)]) depth := by
  obtain ⟨start?, noted, optional, same⟩ := h.noteStart_eq
  have quoted := doubleQuoted_inQuotes cs [] (Nat.succ_pos o.cursor.column) rest
  have flat : ∀ x ∈ inQuotes cs, isBreak x = false := by
    intro x member
    have inline := isInline_inQuotes member
    simp only [isInline, Bool.and_eq_true, Bool.not_eq_true'] at inline
    exact inline.1.1.2
  have told := h.add (inQuotes cs) flat unremarked (.scalar false (encoded cs)) false start? start?
    optional h.starts
  have ahead : inQuotes cs ++ rest = doubleQuote :: (cs.flatMap spell ++ doubleQuote :: rest) := by
    simp [inQuotes]
  rw [ahead] at h
  have taken : o.takeAt doubleQuote (cs.flatMap spell ++ doubleQuote :: rest) =
      (o.takeContent (Outline.quoted (doubleQuoted .none (o.cursor.column + 1)
        (cs.flatMap spell ++ doubleQuote :: rest)))).map skipRemark := rfl
  refine ⟨_, h.next_eq (by decide) (taken.trans ?_) told.whole, same, h.depth ▸ told⟩
  rw [takeContent, noted, Gap.none, quoted]
  rfl

theorem Stands.finish (h : o.Stands [] signs 0) :
    ∃ o', o.next = some o' ∧ o'.lexemes = (signs ++ [Sign.finish]).map (Lexeme.mk 1) := by
  have approached := h.approach_eq nofun
  have closed : o.closeAll = some { o with start? := none, keys := false } := by
    rw [closeAll, h.closeBlocks_eq, h.dropStart_eq]
    rfl
  refine ⟨{ o with start? := none, keys := false }.add .finish, ?_, ?_⟩
  · simp [next, approached, sees, h.whole, take, h.rest, closed, Outline.add]
  · simp [Outline.add, h.lexemes, h.line]

/-! ### Many lexemes -/

/-- Another outline is reached by taking so many lexemes, none of which ends the text. -/
inductive Leads : Outline → Nat → Outline → Prop
  | here (o : Outline) : Leads o 0 o
  | next {o p o' : Outline} {n : Nat} (next : o.next = some p) (going : p.isFinished = false)
      (later : Leads p n o') : Leads o (n + 1) o'

theorem leads_next {o' : Outline} {sign : Sign} (next : o.next = some o')
    (h : o'.Stands rest (signs ++ [sign]) depth) (going : sign ≠ .finish) : Leads o 1 o' := by
  have unfinished : o'.isFinished = false := by
    simp [isFinished, h.lexemes, going]
  exact .next next unfinished (.here o')

theorem Leads.trans {o₁ o₂ o₃ : Outline} {m n : Nat} (first : Leads o₁ m o₂)
    (second : Leads o₂ n o₃) : Leads o₁ (m + n) o₃ := by
  induction first with
  | here => simpa using second
  | next next going _ ih =>
      rw [Nat.add_right_comm]
      exact .next next going (ih second)

/-- Taking lexemes goes on from any outline on the way. -/
theorem Leads.run_eq {o o' : Outline} {n : Nat} (h : Leads o n o') (fuel : Nat) :
    run (fuel + n) o = run fuel o' := by
  induction h with
  | here => rfl
  | next next going _ ih =>
      rw [← Nat.add_assoc, run, next]
      simp only [going, Bool.false_eq_true, if_false, ih]

/-- Characters are taken as lexemes that say `signs`, wherever they are ahead inside of
`depth` brackets; then the outline stands inside of `depth'` brackets. -/
def Takes (written : List Char) (signs : List Sign) (depth depth' : Nat) : Prop :=
  ∀ (o : Outline) (rest : List Char) (before : List Sign),
    o.Stands (written ++ rest) before depth → Unremarked rest →
      ∃ o', Leads o signs.length o' ∧ o'.Stands rest (before ++ signs) depth'

theorem Takes.nil : Takes [] [] depth depth := by
  intro o rest before h _
  exact ⟨o, .here o, by simpa using h⟩

theorem Takes.append {first second : List Char} {signs signs' : List Sign} {d₁ d₂ d₃ : Nat}
    (one : Takes first signs d₁ d₂) (other : Takes second signs' d₂ d₃)
    (unremarked : ∀ rest, Unremarked rest → Unremarked (second ++ rest)) :
    Takes (first ++ second) (signs ++ signs') d₁ d₃ := by
  intro o rest before h behind
  obtain ⟨o₁, leads, stands⟩ :=
    one o (second ++ rest) before (by simpa using h) (unremarked rest behind)
  obtain ⟨o₂, leads', stands'⟩ := other o₁ rest (before ++ signs) stands behind
  refine ⟨o₂, ?_, by simpa using stands'⟩
  rw [List.length_append]
  exact leads.trans leads'

/-- Blanks in front are skipped. -/
theorem Takes.space {written : List Char} {sign : Sign} {signs : List Sign} {d₁ d₂ : Nat}
    (h : Takes written (sign :: signs) d₁ d₂) : Takes (' ' :: written) (sign :: signs) d₁ d₂ := by
  intro o rest before stands behind
  obtain ⟨o₁, same, -, -, stands₁⟩ := stands.space
  obtain ⟨o', leads, stands'⟩ := h o₁ rest before stands₁ behind
  cases leads with
  | next next going later =>
      rw [same] at next
      exact ⟨o', .next next going later, stands'⟩

/-- One lexeme is taken if the next one always is that lexeme. -/
theorem takes_of_next {written : List Char} {sign : Sign} {depth' : Nat} (going : sign ≠ .finish)
    (h : ∀ (o : Outline) (rest : List Char) (before : List Sign),
      o.Stands (written ++ rest) before depth → Unremarked rest →
        ∃ o', o.next = some o' ∧ o'.Stands rest (before ++ [sign]) depth') :
    Takes written [sign] depth depth' := by
  intro o rest before stands behind
  obtain ⟨o', next, stands'⟩ := h o rest before stands behind
  exact ⟨o', leads_next next stands' going, stands'⟩

theorem takes_text (cs : List Char) :
    Takes (inQuotes cs) [.scalar false (encoded cs)] depth depth :=
  takes_of_next nofun fun _ _ _ h behind =>
    have ⟨o', next, _, stands⟩ := h.takeText behind
    ⟨o', next, stands⟩

theorem takes_comma : Takes [','] [.comma] depth depth :=
  takes_of_next nofun fun _ _ _ h behind => h.takeComma behind

/-- A key with its mark and the colon behind it. -/
theorem takes_key (key : List Char) :
    Takes ('?' :: ' ' :: inQuotes key ++ [':']) [.key, .scalar false (encoded key), .value]
      (depth + 1) (depth + 1) := by
  intro o rest before h behind
  have ahead : '?' :: ' ' :: inQuotes key ++ [':'] ++ rest =
      '?' :: ' ' :: (inQuotes key ++ ':' :: rest) := by simp
  rw [ahead] at h
  have colon : Unremarked (':' :: rest) := unremarked_cons (by decide) rest
  have quote : Unremarked (inQuotes key ++ ':' :: rest) := unremarked_cons (by decide) _
  obtain ⟨o₁, next₁, marked, keyless, stands₁⟩ := h.takeKey (unremarked_space quote)
  obtain ⟨o₂, same, marked₂, keyless₂, stands₂⟩ := stands₁.space
  obtain ⟨o₃, next₃, marked₃, stands₃⟩ := stands₂.takeText colon
  rw [marked₂, marked, keyless₂] at marked₃
  obtain ⟨o₄, next₄, stands₄⟩ := stands₃.takeValue (marked₃ keyless) behind
  refine ⟨o₄, ?_, by simpa using stands₄⟩
  exact (leads_next next₁ stands₁ nofun).trans
    ((leads_next (same ▸ next₃) stands₃ nofun).trans (leads_next next₄ stands₄ nofun))

theorem takes_list {inner : List Char} {signs : List Sign} (room : depth < maxDepth)
    (h : Takes inner signs (depth + 1) (depth + 1))
    (unremarked : ∀ rest, Unremarked rest → Unremarked (inner ++ rest)) :
    Takes ('[' :: inner ++ [']']) (.flowSequence :: signs ++ [.flowSequenceEnd]) depth depth := by
  have opened : Takes ['['] [.flowSequence] depth (depth + 1) :=
    takes_of_next nofun fun _ _ _ h behind => h.openFlow (by decide) rfl room behind
  have closed : Takes [']'] [.flowSequenceEnd] (depth + 1) depth :=
    takes_of_next nofun fun _ _ _ h behind => h.closeFlow (by decide) rfl behind
  exact (opened.append h unremarked).append closed fun rest _ => unremarked_cons (by decide) rest

theorem takes_table {inner : List Char} {signs : List Sign} (room : depth < maxDepth)
    (h : Takes inner signs (depth + 1) (depth + 1))
    (unremarked : ∀ rest, Unremarked rest → Unremarked (inner ++ rest)) :
    Takes ('\x7b' :: inner ++ ['\x7d']) (.flowMapping :: signs ++ [.flowMappingEnd]) depth
      depth := by
  have opened : Takes ['\x7b'] [.flowMapping] depth (depth + 1) :=
    takes_of_next nofun fun _ _ _ h behind => h.openFlow (by decide) rfl room behind
  have closed : Takes ['\x7d'] [.flowMappingEnd] (depth + 1) depth :=
    takes_of_next nofun fun _ _ _ h behind => h.closeFlow (by decide) rfl behind
  exact (opened.append h unremarked).append closed fun rest _ => unremarked_cons (by decide) rest

end Outline

end Document
end Reckon
