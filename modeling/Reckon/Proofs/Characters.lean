import Reckon.Document.Characters
import Reckon.Proofs.Quoting

/-!
# Characters of a document

A document is decoded from its bytes a window at a time. For text that was encoded from
characters, the windows make no difference:

* the encoding of a character is told from its first byte, and is read as its code point
  (`Utf8.encodes_encode`, `utf8Start_encode`);
* characters that a document may have are all decoded, whichever windows they fall into
  (`codes_encoded`), and `characters_encoded` says what is then read;
* a text has one encoding only for its characters (`encoded_injective`).
-/

namespace Reckon

/-! ## Encodings -/

namespace Utf8

/-- The first bytes of encodings of two, three and four bytes, by the bits they carry. -/
theorem lead?_two : ∀ p < 0x20, 2 ≤ p → lead? (0xC0 + p).toUInt8 = some ⟨1, p, 0x80, 0xBF⟩ := by
  decide

theorem lead?_three : ∀ p < 0x10, lead? (0xE0 + p).toUInt8 =
    some ⟨2, p, if p = 0 then 0xA0 else 0x80, if p = 0xD then 0x9F else 0xBF⟩ := by
  decide

theorem lead?_four : ∀ p < 5, lead? (0xF0 + p).toUInt8 =
    some ⟨3, p, if p = 0 then 0x90 else 0x80, if p = 4 then 0x8F else 0xBF⟩ := by
  decide

theorem toNat_tail (n : Nat) : (0x80 + n % 64).toUInt8.toNat = 0x80 + n % 64 := by
  simp [Nat.toUInt8_eq]
  omega

/-- **The bytes that encode a character can be read as its code point.** -/
theorem encodes_encode (c : Char) : Encodes c.toNat (encode c.toNat) := by
  have valid : c.toNat < 0xD800 ∨ 0xDFFF < c.toNat ∧ c.toNat < 0x110000 := c.valid
  generalize c.toNat = n at valid
  unfold encode
  split
  · have byte : n.toUInt8.toNat = n := by simp [Nat.toUInt8_eq]; omega
    refine ⟨_, [], _, rfl, lead?_of_ascii (by omega), rfl, byte⟩
  split
  · refine ⟨_, _, _, rfl, lead?_two (n / 64) (by omega) (by omega), admits_iff.mpr ⟨rfl, ?_, ?_⟩,
      ?_⟩
    · simp only [List.mem_singleton, forall_eq, toNat_tail]
      omega
    · simp only [List.head?_cons, Option.mem_some_iff, forall_eq', toNat_tail, UInt8.toNat_ofNat]
      omega
    · simp only [Lead.code, List.foldl_cons, List.foldl_nil, toNat_tail]
      omega
  split
  · refine ⟨_, _, _, rfl, lead?_three (n / 4096) (by omega), admits_iff.mpr ⟨rfl, ?_, ?_⟩, ?_⟩
    · simp only [List.forall_mem_cons, List.not_mem_nil, false_implies, implies_true, and_true,
        toNat_tail]
      omega
    · simp only [List.head?_cons, Option.mem_some_iff, forall_eq', toNat_tail]
      constructor <;> split <;> simp only [UInt8.toNat_ofNat] <;> omega
    · simp only [Lead.code, List.foldl_cons, List.foldl_nil, toNat_tail]
      omega
  · refine ⟨_, _, _, rfl, lead?_four (n / 262144) (by omega), admits_iff.mpr ⟨rfl, ?_, ?_⟩, ?_⟩
    · simp only [List.forall_mem_cons, List.not_mem_nil, false_implies, implies_true, and_true,
        toNat_tail]
      omega
    · simp only [List.head?_cons, Option.mem_some_iff, forall_eq', toNat_tail]
      constructor <;> split <;> simp only [UInt8.toNat_ofNat] <;> omega
    · simp only [Lead.code, List.foldl_cons, List.foldl_nil, toNat_tail]
      omega

end Utf8

/-! ## Decoded text -/

namespace Document

theorem encoded_cons (c : Char) (cs : List Char) :
    encoded (c :: cs) = Utf8.encode c.toNat ++ encoded cs := rfl

/-- A character is told from its first byte and as many others as that announces. -/
theorem utf8Start_encode (c : Char) (rest : Bytes) :
    utf8Start (Utf8.encode c.toNat ++ rest) = .code c.toNat (Utf8.encode c.toNat).length := by
  have encodes := Utf8.encodes_encode c
  have alone := encodes.units_append []
  obtain ⟨b, tails, l, bytes, lead, admits, -⟩ := encodes
  have length := (Utf8.admits_iff.mp admits).1
  have announced : followers? b.toNat = some l.tails := by
    unfold followers?
    rcases Utf8.lead_cases lead with h | h | h | h
    · rw [if_pos (by omega), h.1]
    · rw [if_neg (by omega), if_pos (by simp; omega), h.1]
    · rw [if_neg (by omega), if_neg (by simp; omega), if_pos (by simp; omega), h.1]
    · rw [if_neg (by omega), if_neg (by simp; omega), if_neg (by simp; omega),
        if_pos (by simp; omega), h.1]
  rw [bytes, List.append_nil] at alone
  rw [bytes, List.cons_append]
  have taken : (tails ++ rest).take l.tails = tails := List.take_left' length
  simp only [utf8Start, announced, taken, length, if_neg (Nat.lt_irrefl _), alone, Utf8.units,
    List.length_cons]

/-- Characters that are admitted are all decoded, wherever windows end. -/
theorem codes_encoded {cs : List Char} (admitted : ∀ c ∈ cs, isAdmitted c.toNat = true)
    (room : Nat) (window : List Nat) :
    codes utf8Start room window (encoded cs) = (window ++ cs.map Char.toNat, true) := by
  induction cs generalizing room window with
  | nil => simp [encoded, codes]
  | cons c cs ih =>
      have later := ih fun c member => admitted c (List.mem_cons_of_mem _ member)
      have start := utf8Start_encode c (encoded cs)
      obtain ⟨b, tails, -, bytes, -⟩ := Utf8.encodes_encode c
      have behind : (tails ++ encoded cs).drop ((b :: tails).length - 1) = encoded cs := by simp
      rw [bytes, List.cons_append] at start
      rw [encoded_cons, bytes, List.cons_append, codes, start]
      simp only [Start.admitted, if_pos (admitted c List.mem_cons_self), behind, later]
      split <;> simp

/-- **A text of admitted characters is read as these characters**, whichever windows it
falls into. The mark of the byte order is not one of them. -/
theorem characters_encoded {cs : List Char} (admitted : ∀ c ∈ cs, isAdmitted c.toNat = true)
    (unmarked : cs.head? ≠ some '\uFEFF') :
    characters (encoded cs) = (unifyLineEnds cs, true) := by
  have plain : encoding (encoded cs) = (utf8Start, 0) := by
    cases cs with
    | nil => rfl
    | cons c cs =>
        obtain ⟨b, tails, l, bytes, lead, admits, code⟩ := Utf8.encodes_encode c
        rw [encoded_cons, bytes, List.cons_append]
        unfold encoding
        split
        next same =>
          obtain rfl := List.head_eq_of_cons_eq same
          cases lead
        next same =>
          obtain rfl := List.head_eq_of_cons_eq same
          cases lead
        next rest same =>
          -- the three bytes of the mark are the encoding of a character that is not there
          obtain rfl := List.head_eq_of_cons_eq same
          cases lead
          have length := (Utf8.admits_iff.mp admits).1
          obtain ⟨t, u, rfl⟩ := List.length_eq_two.mp length
          cases same
          exact absurd (congrArg some (Char.toNat_inj.mp code.symm)) unmarked
        next => rfl
  have back : (cs.map Char.toNat).map Char.ofNat = cs := by simp [Function.comp_def]
  simp [characters, plain, codes_encoded admitted, back]

/-- Only returns and the separate next-line character are written otherwise. -/
theorem unifyLineEnds_eq {cs : List Char} (h : ∀ c ∈ cs, c ≠ '\r' ∧ c ≠ '\u0085') :
    unifyLineEnds cs = cs := by
  fun_induction unifyLineEnds cs with
  | case1 => rfl
  | case2 rest _ => exact absurd rfl (h '\r' List.mem_cons_self).1
  | case3 c rest _ ih =>
      obtain ⟨first, later⟩ := List.forall_mem_cons.mp h
      rw [ih later]
      simp [first]

/-- A text says which characters it encodes. -/
theorem encoded_injective : Function.Injective encoded := by
  have units (cs : List Char) :
      Utf8.units (encoded cs) = cs.map fun c => .scalar c.toNat (Utf8.encode c.toNat) := by
    induction cs with
    | nil => simp [encoded, Utf8.units]
    | cons c cs ih =>
        rw [encoded_cons, (Utf8.encodes_encode c).units_append, ih]
        rfl
  intro cs ds same
  have mapped := congrArg Utf8.units same
  rw [units, units] at mapped
  refine List.map_injective_iff.mpr ?_ mapped
  intro c d same
  injection same with code
  exact Char.toNat_inj.mp code

end Document
end Reckon
