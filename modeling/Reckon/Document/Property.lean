import Reckon.Document.Lexeme
import Reckon.Document.Scalar

/-!
# Anchors, tags and directives

What can stand before a node or a document: the name of an anchor, a tag, and the
two directives, one with the version of the format and one that makes a handle
short for the start of a tag. Each reader gives what follows.
-/

namespace Reckon

namespace Document

/-- The characters besides gaps that can follow the name of an anchor. -/
def nameEnds : List Char := "?:,]\x7d%@`".toList

/-- The name of an anchor, and what follows it. -/
def anchorName? (cs : List Char) : Option (Bytes × List Char) :=
  let name := cs.takeWhile isNameChar
  let rest := cs.dropWhile isNameChar
  if !name.isEmpty && (atGap rest || rest.head?.any nameEnds.contains) then
    some (encoded name, rest)
  else none

/-! ## Tags -/

/-- The characters besides those of names that a tag can be made of. -/
def tagMarks : List Char := ";/?:@&=+$,.!~*'()[]%".toList

/-- The characters of a tag, and what follows them. A percent sign and two digits
stand for a byte; `due` more such bytes belong to the character begun. -/
def tagText? (due : Nat) : List Char → Option (Bytes × List Char)
  | '%' :: a :: b :: rest => do
    let octet ← hexNumber? [a, b]
    let due ←
      match due with
      | 0 => followers? octet
      | n + 1 => if 0x80 ≤ octet && octet < 0xC0 then some n else none
    let (text, after) ← tagText? due rest
    return (octet.toUInt8 :: text, after)
  | c :: rest =>
    if due != 0 || c == '%' then none
    else if isNameChar c || tagMarks.contains c then do
      let (text, after) ← tagText? 0 rest
      return (Utf8.encode c.toNat ++ text, after)
    else some ([], c :: rest)
  | [] => if due == 0 then some ([], []) else none

/-- The characters of a tag if there are any. -/
def someTagText? (cs : List Char) : Option (Bytes × List Char) := do
  let (text, rest) ← tagText? 0 cs
  if text.isEmpty then none else some (text, rest)

/-- A handle whose first mark has been read: a name and another mark. -/
def handleName? (cs : List Char) : Option (Bytes × List Char) :=
  match cs.dropWhile isNameChar with
  | '!' :: rest => some (Ascii.bang :: encoded (cs.takeWhile isNameChar) ++ [Ascii.bang], rest)
  | _ => none

/-- A tag whose mark has been read, as a handle and what comes after it. A tag
between angle brackets and the lone mark have no handle. -/
def tag? (cs : List Char) : Option (Sign × List Char) := do
  let (sign, rest) ←
    match cs with
    | '<' :: more =>
      match someTagText? more with
      | some (text, '>' :: rest) => some (Sign.tag [] text, rest)
      | _ => none
    | _ =>
      match handleName? cs with
      | some (handle, more) => (someTagText? more).map fun (text, rest) => (.tag handle text, rest)
      | none =>
        (tagText? 0 cs).map fun (text, rest) =>
          (if text.isEmpty then .tag [] [Ascii.bang] else .tag [Ascii.bang] text, rest)
  if atGap rest then some (sign, rest) else none

/-! ## Directives -/

/-- A number of one or two digits, and what follows it. -/
def versionNumber? (cs : List Char) : Option (Nat × List Char) :=
  let digits := cs.takeWhile Char.isDigit
  if digits.isEmpty || 2 < digits.length then none
  else some (Bytes.readDigits (encoded digits), cs.dropWhile Char.isDigit)

/-- A version: two numbers with a point between them. -/
def version? (cs : List Char) : Option (Sign × List Char) := do
  let (major, rest) ← versionNumber? cs
  match rest with
  | '.' :: more =>
    let (minor, rest) ← versionNumber? more
    return (.version major minor, rest)
  | _ => none

/-- A handle and what it is short for. The handle may be a lone mark. -/
def handle? (cs : List Char) : Option (Sign × List Char) := do
  let (name, rest) ←
    match cs with
    | '!' :: more =>
      match handleName? more with
      | some found => some found
      | none => if more.head?.any isNameChar then none else some ([Ascii.bang], more)
    | _ => none
  if rest.head?.any isBlank then
    let (expansion, rest) ← someTagText? (rest.dropWhile isBlank)
    if atGap rest then some (.handle name expansion, rest) else none
  else none

/-- A directive whose mark has been read, and what follows its line. -/
def directive? (cs : List Char) : Option (Sign × List Char) := do
  let name := cs.takeWhile isNameChar
  let rest := cs.dropWhile isNameChar
  if !atGap rest then none
  else
    let (sign, rest) ←
      if name == "YAML".toList then version? (rest.dropWhile isBlank)
      else if name == "TAG".toList then handle? (rest.dropWhile isBlank)
      else none
    return (sign, ← emptyRest? rest)

end Document

end Reckon
