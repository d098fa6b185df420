import Mathlib.Data.List.Basic
import Reckon.Proofs.CodePoints
import Reckon.Text.Quoted

/-!
# Quoted text can be read back

The quoted form of a text is built unit by unit, and it can be taken apart the same way.

* A unit that encodes a code point has the bytes that `encode` gives that code point
  (`Encodes.encode_eq`), so the code point alone tells which unit it was.
* `next?` reads one unit off the front of quoted text, and nothing off a closing quote.
  What it reads is the unit that was written (`next?_unit`): an escape says by its
  letter how many digits follow, and a stray byte and a control of the same escape
  differ in the highest bit.

So the quoted form of a text says where it ends and which text it is
(`Bytes.quoted_cancel`).
-/

namespace Reckon

/-! ## Encodings of code points -/

namespace Utf8

/-- The bytes are those of a first byte and its continuation, and encode `code`. -/
def Encodes (code : Nat) (bytes : Bytes) : Prop :=
  ∃ b tails l, bytes = b :: tails ∧ lead? b = some l ∧ l.admits tails = true ∧
    l.code tails = code

/-- The four lengths of an encoding: how the first byte carries its bits, and what it
asks of the byte behind it so that the code point is not too small or too large. -/
theorem lead_cases {b : UInt8} {l : Lead} (h : lead? b = some l) :
    (l.tails = 0 ∧ b.toNat < 0x80 ∧ l.payload = b.toNat) ∨
    (l.tails = 1 ∧ b.toNat = 0xC0 + l.payload ∧ 2 ≤ l.payload ∧ l.payload < 0x20) ∨
    (l.tails = 2 ∧ b.toNat = 0xE0 + l.payload ∧ l.payload < 0x10 ∧
      (l.payload = 0 → l.low = 0xA0)) ∨
    (l.tails = 3 ∧ b.toNat = 0xF0 + l.payload ∧ l.payload ≤ 4 ∧
      (l.payload = 0 → l.low = 0x90) ∧ (l.payload = 4 → l.high = 0x8F)) := by
  unfold lead? at h
  simp only [UInt8.lt_iff_toNat_lt, ← UInt8.toNat_inj, UInt8.toNat_ofNat] at h
  split at h
  · cases h
    exact .inl ⟨rfl, by omega, rfl⟩
  split at h
  · cases h
  split at h
  · cases h
    refine .inr (.inl ⟨rfl, ?_⟩)
    dsimp only
    omega
  -- two bytes follow in the next three rows of the table, three bytes in the last three
  split at h
  · cases h
    exact .inr (.inr (.inl ⟨rfl, by assumption, by decide, fun _ => rfl⟩))
  split at h
  · cases h
    exact .inr (.inr (.inl ⟨rfl, by assumption, by decide, nofun⟩))
  split at h
  · cases h
    refine .inr (.inr (.inl ⟨rfl, ?_⟩))
    dsimp only
    omega
  split at h
  · cases h
    exact .inr (.inr (.inr ⟨rfl, by assumption, by decide, fun _ => rfl, nofun⟩))
  split at h
  · cases h
    refine .inr (.inr (.inr ⟨rfl, ?_⟩))
    dsimp only
    omega
  split at h
  · cases h
    exact .inr (.inr (.inr ⟨rfl, by assumption, by decide, nofun, fun _ => rfl⟩))
  · cases h

/-- An ASCII byte stands alone. -/
theorem lead?_of_ascii {b : UInt8} (ascii : b.toNat < 0x80) :
    lead? b = some ⟨0, b.toNat, 0x80, 0xBF⟩ :=
  if_pos (UInt8.lt_iff_toNat_lt.mpr ascii)

theorem toUInt8_of_toNat {n : Nat} {b : UInt8} (h : n = b.toNat) : n.toUInt8 = b := by
  rw [h, Nat.toUInt8_eq, UInt8.ofNat_toNat]

/-- What an admitted continuation is: as many bytes as announced, all in the range of
continuing bytes, the first one in the range of the announcement. -/
theorem admits_iff {l : Lead} {tails : Bytes} :
    l.admits tails = true ↔ tails.length = l.tails ∧
      (∀ t ∈ tails, 0x80 ≤ t.toNat ∧ t.toNat ≤ 0xBF) ∧
      ∀ t ∈ tails.head?, l.low.toNat ≤ t.toNat ∧ t.toNat ≤ l.high.toNat := by
  unfold Lead.admits
  cases tails with
  | nil => simp
  | cons t tails =>
      simp [isTail, UInt8.le_iff_toNat_le, and_assoc]

/-- **The encoding of a code point is the one it was read from.** -/
theorem Encodes.encode_eq {code : Nat} {bytes : Bytes} (h : Encodes code bytes) :
    encode code = bytes ∧ code < 0x110000 := by
  obtain ⟨b, tails, l, rfl, lead, admits, rfl⟩ := h
  obtain ⟨length, range, first⟩ := admits_iff.mp admits
  unfold encode
  rcases lead_cases lead with ⟨count, small, payload⟩ | ⟨count, bits, low, high⟩ |
    ⟨count, bits, high, low⟩ | ⟨count, bits, high, low, top⟩
  · obtain rfl : tails = [] := List.eq_nil_of_length_eq_zero (by omega)
    have code : l.code [] = b.toNat := payload
    rw [code, if_pos small]
    exact ⟨by rw [toUInt8_of_toNat rfl], by omega⟩
  · obtain ⟨t, rfl⟩ := List.length_eq_one_iff.mp (length.trans count)
    have code : l.code [t] = 64 * l.payload + (t.toNat - 0x80) := rfl
    have ht := range t (by simp)
    rw [code, if_neg (by omega), if_pos (by omega)]
    exact ⟨by rw [toUInt8_of_toNat (b := b) (by omega), toUInt8_of_toNat (b := t) (by omega)],
      by omega⟩
  · obtain ⟨t, u, rfl⟩ := List.length_eq_two.mp (length.trans count)
    have code : l.code [t, u] = 64 * (64 * l.payload + (t.toNat - 0x80)) + (u.toNat - 0x80) := rfl
    have ht := range t (by simp)
    have hu := range u (by simp)
    have least : l.payload = 0 → 0xA0 ≤ t.toNat := by
      intro zero
      have h := (first t rfl).1
      rw [low zero] at h
      exact h
    rw [code, if_neg (by omega), if_neg (by omega), if_pos (by omega)]
    exact ⟨by rw [toUInt8_of_toNat (b := b) (by omega), toUInt8_of_toNat (b := t) (by omega),
      toUInt8_of_toNat (b := u) (by omega)], by omega⟩
  · obtain ⟨t, u, v, rfl⟩ := List.length_eq_three.mp (length.trans count)
    have code : l.code [t, u, v] = 64 * (64 * (64 * l.payload + (t.toNat - 0x80))
      + (u.toNat - 0x80)) + (v.toNat - 0x80) := rfl
    have ht := range t (by simp)
    have hu := range u (by simp)
    have hv := range v (by simp)
    have least : l.payload = 0 → 0x90 ≤ t.toNat := by
      intro zero
      have h := (first t rfl).1
      rw [low zero] at h
      exact h
    have greatest : l.payload = 4 → t.toNat ≤ 0x8F := by
      intro four
      have h := (first t rfl).2
      rw [top four] at h
      exact h
    rw [code, if_neg (by omega), if_neg (by omega), if_neg (by omega)]
    exact ⟨by rw [toUInt8_of_toNat (b := b) (by omega), toUInt8_of_toNat (b := t) (by omega),
      toUInt8_of_toNat (b := u) (by omega), toUInt8_of_toNat (b := v) (by omega)], by omega⟩

theorem Encodes.units_append {code : Nat} {bytes : Bytes} (h : Encodes code bytes)
    (rest : Bytes) : units (bytes ++ rest) = .scalar code bytes :: units rest := by
  obtain ⟨b, tails, l, rfl, lead, admits, rfl⟩ := h
  have length := (admits_iff.mp admits).1
  have taken : (tails ++ rest).take l.tails = tails := List.take_left' length
  have dropped : (tails ++ rest).drop l.tails = rest := List.drop_left' length
  rw [List.cons_append, units, lead]
  simp only [taken, dropped, if_pos admits]

/-- An ASCII byte is the encoding of its own number. -/
theorem Encodes.of_ascii {code : Nat} {b : UInt8} {tails : Bytes}
    (h : Encodes code (b :: tails)) (ascii : b.toNat < 0x80) : code = b.toNat := by
  obtain ⟨_, _, l, same, lead, admits, rfl⟩ := h
  cases same
  rw [lead?_of_ascii ascii] at lead
  cases lead
  have none : tails = [] := List.eq_nil_of_length_eq_zero (admits_iff.mp admits).1
  rw [none]
  rfl

end Utf8

/-- A unit as texts have them: a byte above ASCII that encodes nothing, or an
encoding with its code point. -/
def TextUnit.Proper : TextUnit → Prop
  | .stray b => 0x80 ≤ b.toNat
  | .scalar code bytes => Utf8.Encodes code bytes

theorem Utf8.proper_units {text : Bytes} {u : TextUnit} (member : u ∈ units text) :
    u.Proper := by
  fun_induction units text with
  | case1 => cases member
  | case2 b rest none ih =>
      rcases List.mem_cons.mp member with rfl | later
      · show 0x80 ≤ b.toNat
        by_contra low
        rw [lead?_of_ascii (by omega)] at none
        cases none
      · exact ih later
  | case3 b rest l lead tails admits ih =>
      rcases List.mem_cons.mp member with rfl | later
      · exact ⟨b, tails, l, rfl, lead, admits, rfl⟩
      · exact ih later
  | case4 b rest l lead tails refused ih =>
      rcases List.mem_cons.mp member with rfl | later
      · -- an ASCII byte announces nothing that could be refused
        show 0x80 ≤ b.toNat
        by_contra low
        rw [lead?_of_ascii (by omega)] at lead
        cases lead
        exact refused rfl
      · exact ih later

/-! ## Hexadecimal digits -/

namespace Quoted

/-- The number of a hexadecimal digit. -/
def hexValue (b : UInt8) : Nat :=
  if Bytes.isDigit b then b.toNat - Ascii.zero.toNat else b.toNat - Ascii.smallA.toNat + 10

/-- The number that hexadecimal digits write. -/
def readHex (text : Bytes) : Nat := text.foldl (fun n b => 16 * n + hexValue b) 0

theorem hexValue_hexDigit : ∀ d < 16, hexValue (hexDigit d) = d := by
  decide

@[simp] theorem length_hex (width n : Nat) : (hex width n).length = width := by
  induction width generalizing n with
  | zero => rfl
  | succ width ih => simp [hex, ih]

theorem readHex_hex {width n : Nat} (fits : n < 16 ^ width) : readHex (hex width n) = n := by
  induction width generalizing n with
  | zero =>
      have zero : n = 0 := by simpa using fits
      rw [zero]
      rfl
  | succ width ih =>
      have higher : n / 16 < 16 ^ width := by
        rw [Nat.pow_succ] at fits
        omega
      have front := ih higher
      unfold readHex at front ⊢
      rw [hex, List.foldl_append, front, List.foldl_cons, List.foldl_nil,
        hexValue_hexDigit _ (Nat.mod_lt n (by decide))]
      omega

/-! ## Reading a unit -/

/-- The unit of a code point. -/
def charUnit (code : Nat) : TextUnit := .scalar code (Utf8.encode code)

/-- The letters of escapes with digits, and how many digits they have. -/
def digitLetters : List (UInt8 × Nat) :=
  [(Ascii.smallX, 2), (Ascii.smallU, 4), (Ascii.capitalU, 8)]

/-- The unit that an escape with digits writes. Two digits write a byte, which encodes
nothing by itself if it has the highest bit. -/
def digitsUnit (width n : Nat) : TextUnit :=
  if width = 2 ∧ 0x80 ≤ n then .stray n.toUInt8 else charUnit n

/-- The code point of a letter behind a backslash: a control, or the mark itself. -/
def letterCode (letter : UInt8) : Nat :=
  ((controlLetters.find? fun entry => entry.2 == letter).map Prod.fst).getD letter.toNat

/-- The unit that an escape writes, given what follows its backslash. -/
def escaped? : Bytes → Option (TextUnit × Bytes)
  | [] => none
  | letter :: rest =>
    match digitLetters.lookup letter with
    | some width => some (digitsUnit width (readHex (rest.take width)), rest.drop width)
    | none => some (charUnit (letterCode letter), rest)

/-- The first unit of quoted text and the text behind it; a quote ends the text. -/
def next? : Bytes → Option (TextUnit × Bytes)
  | [] => none
  | b :: rest =>
    if b = Ascii.quote then none
    else if b = Ascii.backslash then escaped? rest
    else (Utf8.units (b :: rest)).head?.map fun u => (u, (b :: rest).drop u.bytes.length)

theorem escaped?_digits {letter : UInt8} {width n : Nat}
    (known : digitLetters.lookup letter = some width) (fits : n < 16 ^ width) (rest : Bytes) :
    escaped? (letter :: hex width n ++ rest) = some (digitsUnit width n, rest) := by
  have taken : (hex width n ++ rest).take width = hex width n :=
    List.take_left' (length_hex width n)
  have dropped : (hex width n ++ rest).drop width = rest := List.drop_left' (length_hex width n)
  rw [List.cons_append, escaped?, known]
  simp only [taken, dropped, readHex_hex fits]

theorem escaped?_letter {letter : UInt8} (plain : digitLetters.lookup letter = none)
    (rest : Bytes) : escaped? (letter :: rest) = some (charUnit (letterCode letter), rest) := by
  rw [escaped?, plain]

theorem next?_escape (rest : Bytes) : next? (Ascii.backslash :: rest) = escaped? rest := by
  rw [next?, if_neg (by decide), if_pos rfl]

/-- Visible units stand for themselves, and none starts like an escape or an end. -/
theorem next?_visible {code : Nat} {bytes : Bytes} (encodes : Utf8.Encodes code bytes)
    (unmarked : ¬ (code = Ascii.quote.toNat ∨ code = Ascii.backslash.toNat)) (rest : Bytes) :
    next? (bytes ++ rest) = some (.scalar code bytes, rest) := by
  have cut := encodes.units_append rest
  cases bytes with
  | nil =>
      obtain ⟨_, _, _, shape, _⟩ := encodes
      cases shape
  | cons b tails =>
      have noQuote : b ≠ Ascii.quote := by
        rintro rfl
        exact unmarked (.inl (encodes.of_ascii (by decide)))
      have noBackslash : b ≠ Ascii.backslash := by
        rintro rfl
        exact unmarked (.inr (encodes.of_ascii (by decide)))
      rw [List.cons_append] at cut ⊢
      rw [next?, if_neg noQuote, if_neg noBackslash, cut]
      simp [TextUnit.bytes]

/-- **One unit is read back.** -/
theorem next?_unit {u : TextUnit} (proper : u.Proper) (rest : Bytes) :
    next? (unit u ++ rest) = some (u, rest) := by
  cases u with
  | stray b =>
      have high : 0x80 ≤ b.toNat := proper
      have stray : digitsUnit 2 b.toNat = .stray b := by
        rw [digitsUnit, if_pos ⟨rfl, high⟩, Utf8.toUInt8_of_toNat rfl]
      show next? (Ascii.backslash :: (Ascii.smallX :: hex 2 b.toNat ++ rest)) = _
      rw [next?_escape, escaped?_digits (by decide) b.toNat_lt, stray]
  | scalar code bytes =>
      obtain ⟨encoded, bound⟩ := Utf8.Encodes.encode_eq proper
      have char : charUnit code = .scalar code bytes := by rw [charUnit, encoded]
      unfold unit
      dsimp only
      rw [← char]
      split
      · -- the two marks are written with a backslash before them
        next mark =>
        rw [← encoded]
        rcases mark with rfl | rfl
        · exact (next?_escape _).trans (escaped?_letter (by decide) rest)
        · exact (next?_escape _).trans (escaped?_letter (by decide) rest)
      split
      · next unmarked _ =>
        rw [char]
        exact next?_visible proper unmarked rest
      split
      · next letter found =>
        have table : ∀ entry ∈ controlLetters,
            digitLetters.lookup entry.2 = none ∧ letterCode entry.2 = entry.1 := by decide
        obtain ⟨before, after, parts, _⟩ := List.lookup_eq_some_iff.mp found
        obtain ⟨plain, means⟩ := table (code, letter) (parts ▸ by simp)
        rw [show code = letterCode letter from means.symm]
        exact (next?_escape _).trans (escaped?_letter plain rest)
      split
      · next control =>
        have low : digitsUnit 2 code = charUnit code := if_neg (by omega)
        show next? (Ascii.backslash :: (Ascii.smallX :: hex 2 code ++ rest)) = _
        rw [next?_escape, escaped?_digits (by decide) (by omega), low]
      split
      · show next? (Ascii.backslash :: (Ascii.smallU :: hex 4 code ++ rest)) = _
        rw [next?_escape]
        exact escaped?_digits (by decide) (by omega) rest
      · show next? (Ascii.backslash :: (Ascii.capitalU :: hex 8 code ++ rest)) = _
        rw [next?_escape]
        exact escaped?_digits (by decide) (by omega) rest

/-! ## Reading a text -/

/-- Units that are written one after the other, up to a quote, are read back. -/
theorem units_cancel {us vs : List TextUnit} {rest rest' : Bytes}
    (proper : ∀ u ∈ us, u.Proper) (proper' : ∀ v ∈ vs, v.Proper)
    (same : us.flatMap unit ++ Ascii.quote :: rest = vs.flatMap unit ++ Ascii.quote :: rest') :
    us = vs ∧ rest = rest' := by
  have ended : ∀ rest, next? (Ascii.quote :: rest) = none := by
    intro rest
    rw [next?, if_pos rfl]
  induction us generalizing vs with
  | nil =>
      cases vs with
      | nil => exact ⟨rfl, (List.cons.inj same).2⟩
      | cons v vs =>
          have read := congrArg next? same
          rw [List.flatMap_cons, List.append_assoc, next?_unit (proper' v List.mem_cons_self),
            List.flatMap_nil, List.nil_append, ended] at read
          cases read
  | cons u us ih =>
      have first := next?_unit (proper u List.mem_cons_self)
        (us.flatMap unit ++ Ascii.quote :: rest)
      rw [← List.append_assoc, ← List.flatMap_cons, same] at first
      cases vs with
      | nil =>
          rw [List.flatMap_nil, List.nil_append, ended] at first
          cases first
      | cons v vs =>
          rw [List.flatMap_cons, List.append_assoc,
            next?_unit (proper' v List.mem_cons_self)] at first
          obtain ⟨rfl, behind⟩ := Prod.mk.inj (Option.some.inj first)
          obtain ⟨rfl, rfl⟩ := ih (fun w member => proper w (List.mem_cons_of_mem _ member))
            (fun w member => proper' w (List.mem_cons_of_mem _ member)) behind.symm
          exact ⟨rfl, rfl⟩

end Quoted

/-- **Quoted text says where it ends and which text it is.** -/
theorem Bytes.quoted_cancel {s t rest rest' : Bytes}
    (same : s.quoted ++ rest = t.quoted ++ rest') : s = t ∧ rest = rest' := by
  unfold Bytes.quoted Bytes.inQuotes at same
  simp only [List.cons_append, List.append_assoc, List.nil_append, List.cons.injEq,
    true_and] at same
  obtain ⟨units, rfl⟩ := Quoted.units_cancel (fun u member => Utf8.proper_units member)
    (fun u member => Utf8.proper_units member) same
  refine ⟨?_, rfl⟩
  rw [← Utf8.flatMap_bytes_units s, units, Utf8.flatMap_bytes_units]

end Reckon
