import Reckon.Document.Timestamp
import Reckon.Number.Decimal
import Reckon.Text.Base64

/-!
# Tags

What a node is taken for. Only a plain text can mean something other than text
without being tagged: `Tag.ofPlain` says what. A scalar whose tag is written out and
says what a plain text can mean has to be that; with any other tag it is a text. The
meaning of a scalar is given by `datum?`.
-/

namespace Reckon

namespace Document

/-- What a node is taken for. -/
inductive Tag
  | null
  | bool
  | int
  | float
  | timestamp
  | str
  | binary
  | merge
  | seq
  | map
  /-- A tag without a meaning here. -/
  | other (name : Bytes)
  deriving DecidableEq, Repr

/-- The tags with a meaning and their names. -/
def Tag.table : List (Tag × String) :=
  [(null, "!!null"), (bool, "!!bool"), (int, "!!int"), (float, "!!float"),
    (timestamp, "!!timestamp"), (str, "!!str"), (binary, "!!binary"), (merge, "!!merge"),
    (seq, "!!seq"), (map, "!!map")]

/-- The name of a tag. -/
def Tag.name (t : Tag) : Bytes :=
  match t, Tag.table.lookup t with
  | other name, _ => name
  | _, some name => Bytes.ofString name
  | _, none => []

/-- How the full names of the usual tags start. -/
def usualTags : Bytes := Bytes.ofString "tag:yaml.org,2002:"

/-- The short form of the full name of a tag. -/
def shortName (full : Bytes) : Bytes :=
  if usualTags.isPrefixOf full then Bytes.ofString "!!" ++ full.drop usualTags.length else full

/-- The tag with a full name. -/
def Tag.ofName (full : Bytes) : Tag :=
  let name := shortName full
  match Tag.table.find? fun entry => Bytes.ofString entry.2 == name with
  | some (tag, _) => tag
  | none => .other name

/-! ## Plain words -/

/-- Whether a text is one of the given words. -/
def isOneOf (words : List String) (text : Bytes) : Bool :=
  words.any fun w => Bytes.ofString w == text

/-- Whether a plain text stands for nothing. -/
def isNullWord (text : Bytes) : Bool := isOneOf ["", "~", "null", "Null", "NULL"] text

/-- The truth value that a plain text spells. -/
def truth? (text : Bytes) : Option Bool :=
  if isOneOf ["true", "True", "TRUE"] text then some true
  else if isOneOf ["false", "False", "FALSE"] text then some false
  else none

/-- The truth value that a text spells where a truth value is wanted, beyond the
usual words. -/
def looseTruth? (text : Bytes) : Option Bool :=
  if isOneOf ["y", "Y", "yes", "Yes", "YES", "on", "On", "ON"] text then some true
  else if isOneOf ["n", "N", "no", "No", "NO", "off", "Off", "OFF"] text then some false
  else none

/-- The key that merges other mappings into its own. -/
def mergeWord : Bytes := [Ascii.less, Ascii.less]

/-! ## Plain integers -/

/-- The value of a hexadecimal digit. -/
def digitValue? (b : UInt8) : Option Nat :=
  if Bytes.isDigit b then some (b - Ascii.zero).toNat
  else if Ascii.smallA ≤ b && b ≤ 'f'.toUInt8 then some (b - Ascii.smallA + 10).toNat
  else if Ascii.capitalA ≤ b && b ≤ 'F'.toUInt8 then some (b - Ascii.capitalA + 10).toNat
  else none

/-- The number that digits write in a base; there has to be a digit. -/
def inBase? (base : Nat) (digits : Bytes) : Option Nat :=
  if digits.isEmpty then none
  else
    digits.foldlM (fun n b => do
      let d ← digitValue? b
      if d < base then some (base * n + d) else none) 0

/-- The number that an unsigned text writes, its base given by the way it
starts. -/
def magnitude? (text : Bytes) : Option Nat :=
  match text with
  | Ascii.zero :: b :: digits =>
    if b == 'x'.toUInt8 || b == 'X'.toUInt8 then inBase? 16 digits
    else if b == 'o'.toUInt8 || b == 'O'.toUInt8 then inBase? 8 digits
    else if b == 'b'.toUInt8 || b == 'B'.toUInt8 then inBase? 2 digits
    else inBase? 8 (b :: digits)
  | digits => inBase? 10 digits

/-- A text without its sign, and the sign if it has one. -/
def unsigned (text : Bytes) : Option UInt8 × Bytes :=
  match text with
  | Ascii.plus :: rest => (some Ascii.plus, rest)
  | Ascii.minus :: rest => (some Ascii.minus, rest)
  | _ => (none, text)

/-- The integer of 64 bits, one of them for the sign, with a given sign and
magnitude. -/
def signed? (sign : Option UInt8) (magnitude : Nat) : Option Int :=
  if sign == some Ascii.minus then
    if magnitude ≤ 0x8000000000000000 then some (-(magnitude : Int)) else none
  else if magnitude < 0x8000000000000000 then some magnitude
  else none

/-- The integer in a base after a mark of the base, where a sign may follow the
mark. -/
def marked? (text : Bytes) : Option Int :=
  let (mark, rest) := (text.take 2, text.drop 2)
  let (sign, digits) := unsigned rest
  if mark == Bytes.ofString "0b" then inBase? 2 digits >>= signed? sign
  else if mark == Bytes.ofString "0o" then inBase? 8 digits >>= signed? sign
  else none

/-- The integer that a text writes, of 64 bits with a sign or without. -/
def integer? (text : Bytes) : Option Int :=
  let (sign, digits) := unsigned text
  match magnitude? digits with
  | some n =>
    match signed? sign n with
    | some i => some i
    | none => if sign.isNone && n < 0x10000000000000000 then some n else none
  | none => marked? text

/-! ## Plain decimals -/

/-- The exponent that a text writes; nothing stands for zero. -/
def exponent? (text : Bytes) : Option Int :=
  match text with
  | [] => some 0
  | e :: rest =>
    let (sign, digits) := unsigned rest
    if (e == 'e'.toUInt8 || e == 'E'.toUInt8) && !digits.isEmpty && digits.all Bytes.isDigit then
      let n : Int := Bytes.readDigits digits
      some (if sign == some Ascii.minus then -n else n)
    else none

/-- The unsigned number with a point or an exponent that a text writes. -/
def decimal? (text : Bytes) : Option Decimal :=
  let body := (unsigned text).2
  let whole := body.takeWhile Bytes.isDigit
  let rest := body.dropWhile Bytes.isDigit
  let fraction :=
    match rest with
    | Ascii.point :: more => more.takeWhile Bytes.isDigit
    | _ => []
  let rest :=
    match rest with
    | Ascii.point :: more => more.dropWhile Bytes.isDigit
    | _ => rest
  if whole.isEmpty && fraction.isEmpty then none
  else
    (exponent? rest).map fun e =>
      let d := Decimal.ofNumeral whole fraction
      { d with exponent := d.exponent + e }

/-- Whether a decimal is nearest to a finite double. Those with hundreds of digits
before the point are not, and those without any are. -/
def isFinite (d : Decimal) : Bool :=
  if d.significand == 0 then true
  else
    let places : Int := (Bytes.digits d.significand).length + d.exponent
    if 400 < places then false
    else if places < 0 then true
    else d.rank < rankBound

/-- Whether a text is a word for an infinity or for no number. -/
def isSpecialNumber (text : Bytes) : Bool :=
  isOneOf [".nan", ".NaN", ".NAN"] text || isOneOf [".inf", ".Inf", ".INF"] (unsigned text).2

/-! ## Plain texts -/

/-- What a text that starts with a digit or a sign is taken for. Underscores may
stand anywhere in a number but before it. -/
def Tag.ofNumeral (timestamps : Bool) (text : Bytes) : Tag :=
  let bare := text.filter (· != Ascii.underscore)
  if timestamps && isTimestamp text then .timestamp
  else if (integer? bare).isSome then .int
  else if (decimal? bare).any isFinite then .float
  else .str

/-- What a plain text is taken for, with or without regard to timestamps. -/
def Tag.ofPlain (timestamps : Bool) (text : Bytes) : Tag :=
  if isNullWord text then .null
  else if (truth? text).isSome then .bool
  else if isSpecialNumber text then .float
  else
    match text with
    | [] => .null
    | b :: _ =>
      if Bytes.isDigit b || b == Ascii.plus || b == Ascii.minus then .ofNumeral timestamps text
      else if b == Ascii.point && (decimal? text).any isFinite then .float
      else .str

/-! ## Meanings -/

/-- What a scalar means. -/
inductive Datum
  | nothing
  | truth (b : Bool)
  | text (t : Bytes)
  /-- A number or a timestamp, which nothing asks for. -/
  | other
  deriving DecidableEq, Repr

/-- The meaning of a text that is taken for `tag`. -/
def Datum.ofTagged (tag : Tag) (text : Bytes) : Datum :=
  match tag with
  | .null => .nothing
  | .bool => .truth ((truth? text).getD false)
  | .int | .float | .timestamp => .other
  | .str | .binary | .merge | .seq | .map | .other _ => .text text

/-- Whether a text can be taken for `tag` if the tag is written out. An integer with a
sign bit to spare may stand for a decimal. -/
def admits (tag : Tag) (text : Bytes) : Bool :=
  match tag with
  | .null | .bool | .int | .timestamp => Tag.ofPlain (tag = .timestamp) text = tag
  | .float =>
    match Tag.ofPlain false text with
    | .float => true
    | .int => (integer? (text.filter (· != Ascii.underscore))).any (· < 0x8000000000000000)
    | _ => false
  | .str | .binary | .merge | .seq | .map | .other _ => true

/-- The meaning of a scalar with a tag; none if it is not what the tag says. -/
def datum? (tag : Tag) (text : Bytes) : Option Datum :=
  if tag = .binary then (Base64.decode? text).map .text
  else if admits tag text then some (.ofTagged tag text)
  else none

end Document

end Reckon
