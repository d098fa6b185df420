import Reckon.Expr.Basic
import Reckon.Proofs.Factoring

/-!
# Written numbers

The text of a number says which number it is.

* A finite double is written as one numeral behind the sign it may have, and the
  numeral reads as its magnitude (`tokens_finite`). So finite doubles with one text
  are one double, and with the infinities and `nan` told apart by their letters
  (`text_injective`) the text stands for the bit pattern (`toBits_ofBits`).
* The texts of doubles have a mark that integers do not have: a point, or the first
  letter of a name (`exists_mark_of_double`).

`doubles_read_back` is the statement about doubles; the facts about single bytes
(`isFigure_of_mem_text`, `isFigure_of_mem_ofInt`) serve the printed forms of trees.
-/

namespace Reckon

open Bytes (DigitRun)
open Source

/-! ## The bytes of numbers -/

namespace Bytes

/-- Whether a byte can stand in the text of a number. -/
def isFigure (b : UInt8) : Bool := isDigit b || (ofString "+-.InfNa").contains b

/-- Whether a byte is one of those that a double has and an integer has not. -/
def isDoubleMark (b : UInt8) : Bool := (ofString ".IN").contains b

theorem ne_of_isFigure {b c : UInt8} (figure : isFigure b = true) (other : isFigure c = false) :
    b ≠ c := by
  rintro rfl
  rw [other] at figure
  cases figure

theorem isFigure_of_isDigit {b : UInt8} (h : isDigit b = true) : isFigure b = true := by
  simp [isFigure, h]

theorem not_isDoubleMark_of_isDigit {b : UInt8} (h : isDigit b = true) :
    isDoubleMark b = false := by
  refine Bool.eq_false_iff.mpr ?_
  intro mark
  have named : b ∈ ofString ".IN" := List.contains_iff_mem.mp mark
  have table : (ofString ".IN").all (fun c => !isDigit c) = true := by decide
  have plain := List.all_eq_true.mp table b named
  rw [h] at plain
  cases plain

theorem minus_not_mem_of_digitRun {text : Bytes} (run : DigitRun text) : Ascii.minus ∉ text := by
  intro member
  have digit := run.2 _ member
  simp [isDigit, Ascii.minus, Ascii.zero] at digit

theorem digits_injective : Function.Injective digits := by
  intro n m same
  rw [← readDigits_digits n, same, readDigits_digits]

/-- Integers with one text are one integer. -/
theorem ofInt_injective : Function.Injective ofInt := by
  have unsigned : ∀ n m : Nat, digits n ≠ Ascii.minus :: digits m := by
    intro n m same
    exact minus_not_mem_of_digitRun (digitRun_digits n) (same ▸ List.mem_cons_self)
  intro n m same
  unfold ofInt at same
  split at same <;> split at same
  · have sizes := digits_injective (List.cons.inj same).2
    omega
  · exact absurd same.symm (unsigned _ _)
  · exact absurd same (unsigned _ _)
  · have sizes := digits_injective same
    omega

theorem isFigure_of_mem_ofInt {n : Int} {b : UInt8} (member : b ∈ ofInt n) :
    isFigure b = true ∧ isDoubleMark b = false := by
  have run := digitRun_digits n.natAbs
  have digit : b ∈ digits n.natAbs → isFigure b = true ∧ isDoubleMark b = false := by
    intro inside
    have h := run.2 b inside
    exact ⟨isFigure_of_isDigit h, not_isDoubleMark_of_isDigit h⟩
  unfold ofInt at member
  split at member
  · rcases List.mem_cons.mp member with rfl | inside
    · decide
    · exact digit inside
  · exact digit member

theorem exists_digit_of_ofInt (n : Int) : ∃ b ∈ ofInt n, isDigit b = true := by
  obtain ⟨nonempty, all⟩ := digitRun_digits n.natAbs
  obtain ⟨b, more, shape⟩ := List.exists_cons_of_ne_nil nonempty
  have here : b ∈ digits n.natAbs := by simp [shape]
  refine ⟨b, ?_, all b here⟩
  unfold ofInt
  split
  · exact List.mem_cons_of_mem _ here
  · exact here

end Bytes

namespace Double

/-- The text of a double has bytes of numbers only. -/
theorem isFigure_of_mem_text {d : Double} {b : UInt8} (member : b ∈ d.text .value) :
    Bytes.isFigure b = true := by
  cases d with
  | nan =>
      have table : (Bytes.ofString "NaN").all Bytes.isFigure = true := by decide
      exact List.all_eq_true.mp table b member
  | infinite negative =>
      have table : ∀ s, ((Double.infinite s).text .value).all Bytes.isFigure = true := by decide
      exact List.all_eq_true.mp (table negative) b member
  | finite negative rank =>
      obtain ⟨whole, fraction, run, run', _, written⟩ := exists_numeral rank
      rw [written negative] at member
      simp only [List.mem_append, List.mem_cons] at member
      rcases member with sign | inside | rfl | inside
      · cases negative with
        | false => cases sign
        | true =>
            rw [List.mem_singleton.mp sign]
            decide
      · exact Bytes.isFigure_of_isDigit (run.2 b inside)
      · decide
      · exact Bytes.isFigure_of_isDigit (run'.2 b inside)

/-- The text of a double has a point, or it is the name of a special value. -/
theorem exists_mark_of_double (d : Double) :
    ∃ b ∈ d.text .value, Bytes.isDoubleMark b = true := by
  cases d with
  | nan => decide
  | infinite negative => cases negative <;> decide
  | finite negative rank =>
      obtain ⟨whole, fraction, _, _, _, written⟩ := exists_numeral rank
      refine ⟨Ascii.point, ?_, by decide⟩
      rw [written negative]
      simp

theorem point_mem_text_iff {d : Double} :
    Ascii.point ∈ d.text .value ↔ ∃ negative rank, d = .finite negative rank := by
  cases d with
  | nan =>
      have absent : Ascii.point ∉ Double.nan.text .value := by decide
      simp [absent]
  | infinite negative =>
      have absent : ∀ s, Ascii.point ∉ (Double.infinite s).text .value := by decide
      simp [absent]
  | finite negative rank =>
      obtain ⟨whole, fraction, _, _, _, written⟩ := exists_numeral rank
      rw [written negative]
      simp

/-! ## Reading a written double -/

/-- The token of the sign that a double is written with. -/
def signTokens (negative : Bool) : List Token :=
  if negative then [⟨.minus, [Ascii.minus], 1, .absent⟩] else []

/-- The piece of the sign that a double is written with. -/
def signPieces (negative : Bool) : List Piece :=
  if negative then [.symbol .minus [Ascii.minus]] else []

theorem pieces_signed (negative : Bool) (rest : Bytes) :
    pieces (signText negative ++ rest) = signPieces negative ++ pieces rest := by
  cases negative with
  | false => rfl
  | true =>
      have mark : (Ascii.minus, Kind.minus) ∈ marks := by decide
      exact pieces_symbol (.mark mark) (mark_stopsAt_any mark rest)

/-- A written double is its sign and one numeral. -/
theorem exists_pieces_finite (rank : Fin rankBound) :
    ∃ p : Piece, p.bytes = (Double.finite false rank).text .value ∧
      p.meaning? = some (.number, .double (.finite false rank)) ∧ p.complaint? = none ∧
      ∀ negative, pieces ((Double.finite negative rank).text .value)
        = signPieces negative ++ [p] := by
  obtain ⟨whole, fraction, run, run', reads, written⟩ := exists_numeral rank
  refine ⟨.numeral whole (some fraction), (written false).symm, ?_, rfl, ?_⟩
  · rw [Piece.meaning?, Option.getD_some, reads]
  · intro negative
    have ends : Ends Bytes.isDigit [] := by
      intro b head
      cases head
    have numeral := pieces_fraction run run' ends
    rw [List.append_nil] at numeral
    rw [written negative, pieces_signed, numeral, pieces]

theorem lineEnds_text (d : Double) : Bytes.lineEnds (d.text .value) = 0 := by
  refine List.count_eq_zero_of_not_mem ?_
  intro member
  exact Bytes.ne_of_isFigure (isFigure_of_mem_text member) (by decide) rfl

theorem errors_finite (negative : Bool) (rank : Fin rankBound) :
    errors ((Double.finite negative rank).text .value) = [] := by
  obtain ⟨p, _, _, clean, cut⟩ := exists_pieces_finite rank
  refine errors_eq_nil ?_
  intro q member
  rw [cut negative] at member
  rcases List.mem_append.mp member with sign | numeral
  · cases negative with
    | false => cases sign
    | true =>
        rw [List.mem_singleton.mp sign]
        rfl
  · rw [List.mem_singleton.mp numeral]
    exact clean

/-- A finite double reads as its magnitude, behind a minus if it has the sign. -/
theorem tokens_finite (negative : Bool) (rank : Fin rankBound) :
    tokens ((Double.finite negative rank).text .value) = signTokens negative ++
      [⟨.number, (Double.finite false rank).text .value, 1, .double (.finite false rank)⟩,
        endToken ((Double.finite negative rank).text .value)] := by
  obtain ⟨p, bytes, meaning, _, cut⟩ := exists_pieces_finite rank
  -- nothing in the text ends the first line
  have flat := lineEnds_text (.finite false rank)
  rw [← bytes] at flat ⊢
  unfold tokens
  rw [cut negative]
  cases negative with
  | false => simp [signTokens, signPieces, place, Placed.token?, meaning, flat]
  | true =>
      have sign : (Piece.symbol .minus [Ascii.minus]).bytes = [Ascii.minus] := rfl
      have means : (Piece.symbol .minus [Ascii.minus]).meaning? = some (.minus, .absent) := rfl
      have first : Bytes.lineEnds [Ascii.minus] = 0 := by decide
      simp [signTokens, signPieces, place, Placed.token?, meaning, flat, sign, means, first]

/-! ## One text, one number -/

/-- What is read back tells finite doubles apart. -/
theorem finite_eq_of_text_eq {negative negative' : Bool} {rank rank' : Fin rankBound}
    (same : (Double.finite negative rank).text .value
      = (Double.finite negative' rank').text .value) :
    Double.finite negative rank = Double.finite negative' rank' := by
  have read := tokens_finite negative rank
  rw [same, tokens_finite negative' rank'] at read
  cases negative <;> cases negative' <;> simp [signTokens] at read ⊢
  · exact read.2.symm
  · exact read.2.symm

theorem text_injective : Function.Injective (Double.text .value) := by
  intro d d' same
  by_cases finite : Ascii.point ∈ d.text .value
  · obtain ⟨negative, rank, rfl⟩ := point_mem_text_iff.mp finite
    rw [same] at finite
    obtain ⟨negative', rank', rfl⟩ := point_mem_text_iff.mp finite
    exact finite_eq_of_text_eq same
  · -- the names of the special values differ
    have infinities : ∀ s t, (Double.infinite s).text .value = (Double.infinite t).text .value →
        s = t := by decide
    have nan : ∀ s, (Double.infinite s).text .value ≠ Double.nan.text .value := by decide
    have finite' := finite
    rw [same] at finite'
    rw [point_mem_text_iff] at finite finite'
    cases d with
    | finite negative rank => exact absurd ⟨negative, rank, rfl⟩ finite
    | nan =>
        cases d' with
        | finite negative rank => exact absurd ⟨negative, rank, rfl⟩ finite'
        | nan => rfl
        | infinite s => exact absurd same.symm (nan s)
    | infinite s =>
        cases d' with
        | finite negative rank => exact absurd ⟨negative, rank, rfl⟩ finite'
        | nan => exact absurd same (nan s)
        | infinite t => rw [infinities s t same]

/-- Every bit pattern but those of `nan` is kept. -/
theorem toBits_ofBits {bits : UInt64} (number : ofBits bits ≠ .nan) :
    (ofBits bits).toBits = bits := by
  have below : bits.toNat < 2 ^ 64 := bits.toNat_lt
  have weight : signWeight = 2 ^ 63 := by decide
  have kept : (if signWeight ≤ bits.toNat then signWeight else 0) + bits.toNat % signWeight
      = bits.toNat := by
    rw [weight]
    split <;> omega
  have restored := congrArg Nat.toUInt64 kept
  rw [Nat.toUInt64_eq, Nat.toUInt64_eq, UInt64.ofNat_toNat] at restored
  unfold ofBits at number ⊢
  dsimp only at number ⊢
  split at number
  · next bounded =>
    rw [if_pos bounded]
    unfold ofRank
    split
    · simpa [toBits] using restored
    · have edge : bits.toNat % signWeight = rankBound := by omega
      rw [edge] at restored
      simpa [toBits] using restored
  · exact absurd rfl number

end Double

/-- The text of a double is never that of an integer. -/
theorem Value.display_double_ne_int (d : Double) (n : Int32) :
    (Value.double d).display ≠ (Value.int n).display := by
  intro same
  obtain ⟨b, member, mark⟩ := Double.exists_mark_of_double d
  have inside : b ∈ Bytes.ofInt n.toInt := by
    show b ∈ (Value.int n).display
    rw [← same]
    exact member
  rw [(Bytes.isFigure_of_mem_ofInt inside).2] at mark
  cases mark

/-- **Written doubles read back.** The text of a finite double has no scan errors; its
tokens are a minus if the double has the sign, the number that is its magnitude,
and the end. Two bit patterns that are numbers or infinities and have one text are
one pattern, and no double has the text of an integer. -/
theorem doubles_read_back :
    (∀ negative rank, errors ((Double.finite negative rank).text .value) = [] ∧
      tokens ((Double.finite negative rank).text .value) = Double.signTokens negative ++
        [⟨.number, (Double.finite false rank).text .value, 1, .double (.finite false rank)⟩,
          endToken ((Double.finite negative rank).text .value)]) ∧
    (∀ bits bits', Double.ofBits bits ≠ .nan → Double.ofBits bits' ≠ .nan →
      (Double.ofBits bits).text .value = (Double.ofBits bits').text .value → bits = bits') ∧
    ∀ d n, (Value.double d).display ≠ (Value.int n).display := by
  refine ⟨?_, ?_, Value.display_double_ne_int⟩
  · intro negative rank
    exact ⟨Double.errors_finite negative rank, Double.tokens_finite negative rank⟩
  · intro bits bits' number number' same
    rw [← Double.toBits_ofBits number, Double.text_injective same, Double.toBits_ofBits number']

/-- Negative zero is written with its sign, so it is not written as zero is. -/
theorem doubles_read_back_sample :
    tokens (Bytes.ofString "-0.0") =
      [⟨.minus, Bytes.ofString "-", 1, .absent⟩,
        ⟨.number, Bytes.ofString "0.0", 1, .double (.finite false ⟨0, by decide⟩)⟩,
        ⟨.eof, [], 1, .absent⟩] ∧
    Double.ofBits 0x8000000000000000 ≠ .nan ∧ Double.ofBits 0 ≠ .nan ∧
    (Double.ofBits 0x8000000000000000).text .value ≠ (Double.ofBits 0).text .value ∧
    (Value.double (.infinite true)).display ≠ (Value.int (-1)).display := by
  obtain ⟨reads, patterns, apart⟩ := doubles_read_back
  have number : Double.ofBits 0x8000000000000000 ≠ .nan := by decide
  have number' : Double.ofBits 0 ≠ .nan := by decide
  refine ⟨?_, number, number', ?_, apart _ _⟩
  · have zero : ∀ negative, (Double.finite negative ⟨0, by decide⟩).text .value
        = Double.signText negative ++ Bytes.ofString "0.0" := by
      intro negative
      show Double.signText negative ++ Layout.value.plain ⟨0, 0⟩ = _
      rw [Layout.plain, Bytes.digits_of_lt (by decide)]
      rfl
    have read := (reads true ⟨0, by decide⟩).2
    rw [zero true, zero false] at read
    exact read
  · intro same
    exact absurd (patterns _ _ number number' same) (by decide)

end Reckon
