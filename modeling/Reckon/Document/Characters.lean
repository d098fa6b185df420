import Reckon.Text.Utf8

/-!
# Characters of documents

A document is a sequence of characters, encoded in UTF-8 or, after a byte order
mark that says so, in UTF-16. Controls other than tabs and line ends are not
admitted. All ways to end a line but the two separators of lines and paragraphs
count as the same character.

A text is decoded window after window, and only as far as its characters are
wanted. So a flaw in the text takes with it the window that it is in, and the
characters before that can be used.
-/

namespace Reckon

namespace Document

/-! ## Encodings -/

/-- Whether a code point may stand in a document. -/
def isAdmitted (code : Nat) : Bool :=
  code == 9 || code == 10 || code == 13 || (0x20 ≤ code && code ≤ 0x7E) || code == 0x85
    || (0xA0 ≤ code && code ≤ 0xD7FF) || (0xE000 ≤ code && code ≤ 0xFFFD)
    || (0x10000 ≤ code && code ≤ 0x10FFFF)

/-- What a text starts with in an encoding. -/
inductive Start
  /-- A code point that takes a number of bytes. -/
  | code (code width : Nat)
  /-- Bytes of that number that encode nothing. -/
  | flaw (width : Nat)
  /-- Less than a character. -/
  | cut
  deriving DecidableEq, Repr

/-- What a text starts with, where a code point that is not admitted is a flaw. -/
def Start.admitted : Start → Start
  | code value width => if isAdmitted value then .code value width else .flaw width
  | s => s

/-- How many bytes follow the first byte of a character. -/
def followers? (octet : Nat) : Option Nat :=
  if octet < 0x80 then some 0
  else if 0xC0 ≤ octet && octet < 0xE0 then some 1
  else if 0xE0 ≤ octet && octet < 0xF0 then some 2
  else if 0xF0 ≤ octet && octet < 0xF8 then some 3
  else none

/-- What a text in UTF-8 starts with. -/
def utf8Start (text : Bytes) : Start :=
  match text with
  | [] => .cut
  | b :: rest =>
    match followers? b.toNat with
    | none => .flaw 1
    | some n =>
      if (rest.take n).length < n then .cut
      else
        match Utf8.units (b :: rest.take n) with
        | [.scalar code _] => .code code (n + 1)
        | _ => .flaw (n + 1)

/-- Whether a 16-bit unit is the first of a pair. -/
def isHighHalf (u : Nat) : Bool := 0xD800 ≤ u && u ≤ 0xDBFF

/-- Whether a 16-bit unit is the second of a pair. -/
def isLowHalf (u : Nat) : Bool := 0xDC00 ≤ u && u ≤ 0xDFFF

/-- The code point of a pair of halves. -/
def joined (high low : Nat) : Nat := 0x10000 + (high - 0xD800) * 0x400 + (low - 0xDC00)

/-- What a text in UTF-16 starts with, given how two bytes make a 16-bit unit; halves
have to come in pairs. -/
def utf16Start (unit : UInt8 → UInt8 → Nat) (text : Bytes) : Start :=
  match text with
  | a :: b :: rest =>
    let u := unit a b
    if isLowHalf u then .flaw 2
    else if isHighHalf u then
      match rest with
      | c :: d :: _ =>
        let v := unit c d
        if isLowHalf v then .code (joined u v) 4 else .flaw 4
      | _ => .cut
    else .code u 2
  | _ => .cut

/-- How a text is encoded and the length of its byte order mark, which tells. -/
def encoding (text : Bytes) : (Bytes → Start) × Nat :=
  match text with
  | 0xFF :: 0xFE :: _ => (utf16Start fun a b => a.toNat + 0x100 * b.toNat, 2)
  | 0xFE :: 0xFF :: _ => (utf16Start fun a b => 0x100 * a.toNat + b.toNat, 2)
  | 0xEF :: 0xBB :: 0xBF :: _ => (utf8Start, 3)
  | _ => (utf8Start, 0)

/-! ## Windows -/

/-- The number of bytes in a window. -/
def windowSize : Nat := 512

/-- The code points of a text up to the window that cannot be decoded, and whether
there is none. `room` bytes are left in the window, from which the code points `window`
have been decoded; a character that does not fit is the first of the next window. -/
def codes (start : Bytes → Start) (room : Nat) (window : List Nat) (text : Bytes) :
    List Nat × Bool :=
  match text with
  | [] => (window, true)
  | b :: rest =>
    match (start (b :: rest)).admitted with
    | .cut => (window, false)
    | .flaw width => (if width ≤ room then [] else window, false)
    | .code code width =>
      if width ≤ room then
        codes start (room - width) (window ++ [code]) (rest.drop (width - 1))
      else
        let (more, whole) := codes start (windowSize - width) [code] (rest.drop (width - 1))
        (window ++ more, whole)
termination_by text.length
decreasing_by all_goals simp only [List.length_cons, List.length_drop]; omega

/-! ## Line ends -/

/-- The characters with each common way to end a line written as one. -/
def unifyLineEnds : List Char → List Char
  | [] => []
  | '\r' :: '\n' :: rest => '\n' :: unifyLineEnds rest
  | c :: rest => (if c == '\r' || c == '\u0085' then '\n' else c) :: unifyLineEnds rest

/-- The characters of a document that can be decoded, and whether these are all. -/
def characters (text : Bytes) : List Char × Bool :=
  let (start, mark) := encoding text
  let (codes, whole) := codes start (windowSize - mark) [] (text.drop mark)
  (unifyLineEnds (codes.map Char.ofNat), whole)

/-- The text of characters in UTF-8. -/
def encoded (cs : List Char) : Bytes := cs.flatMap fun c => Utf8.encode c.toNat

/-! ## Classes of characters -/

/-- Whether a character is a space or a tab. -/
def isBlank (c : Char) : Bool := c == ' ' || c == '\t'

/-- Whether a character ends a line. -/
def isBreak (c : Char) : Bool := c == '\n' || c == '\u2028' || c == '\u2029'

/-- Whether a character is a blank or ends a line. -/
def isGap (c : Char) : Bool := isBlank c || isBreak c

/-- Whether nothing is ahead, or a gap. -/
def atGap : List Char → Bool
  | [] => true
  | c :: _ => isGap c

/-- Whether a character can be part of the name of an anchor or a directive. -/
def isNameChar (c : Char) : Bool := c.isAlphanum || c == '_' || c == '-'

/-- Whether three dashes or three points, alone on their line, are ahead. -/
def atBoundary : List Char → Bool
  | '-' :: '-' :: '-' :: rest => atGap rest
  | '.' :: '.' :: '.' :: rest => atGap rest
  | _ => false

/-- The value of a hexadecimal digit. -/
def hexValue? (c : Char) : Option Nat :=
  if c.isDigit then some (c.toNat - 48)
  else if 'a' ≤ c && c ≤ 'f' then some (c.toNat - 87)
  else if 'A' ≤ c && c ≤ 'F' then some (c.toNat - 55)
  else none

/-- The number that hexadecimal digits write. -/
def hexNumber? (digits : List Char) : Option Nat :=
  digits.foldlM (fun n c => (hexValue? c).map (16 * n + ·)) 0

end Document

end Reckon
