import Reckon.Document.Decode

/-!
# Tables of cases

A table lists sources with the texts expected of each stage. Cases that are not
enabled are left out.
-/

namespace Reckon

/-- A source and what is expected of it, by stage. -/
structure Case where
  label : Bytes := []
  enabled : Bool := false
  input : Bytes := []
  expected? : Option (List (Bytes × Bytes)) := none
  deriving DecidableEq, Repr

namespace Case

open Document

/-- The texts expected of stages. -/
abbrev Expectations := List (Bytes × Bytes)

/-- Sets the text expected of a stage. -/
def Expectations.put (stage text : Bytes) : Expectations → Expectations
  | [] => [(stage, text)]
  | (other, old) :: rest =>
    if other == stage then (stage, text) :: rest else (other, old) :: put stage text rest

/-- Decodes the text expected of a stage; nothing stands for the empty text, unless a
text is expected already. -/
def decodeExpectation (scope : Scope) (stage : Bytes) (n : Node)
    (expected? : Option Expectations) : Decoding (Decoded (Option Expectations)) := do
  let d ← n.decodeText scope []
  let expected := expected?.getD []
  if d.given || (d.errors.isEmpty && (expected.lookup stage).isNone) then
    return { d with value := some (expected.put stage d.value) }
  else return { d with value := expected? }

/-- Expectations are mappings from stages to texts. -/
def expectedShape : Shape (Option Expectations) where
  wanted := Bytes.ofString "map[string]string"
  parts? := none
  decode := decodeExpectation

/-- Decodes one named part of a case. -/
def decodePart (scope : Scope) (name : Bytes) (n : Node) (c : Case) : Decoding (Decoded Case) := do
  if name == Bytes.ofString "label" then
    let d ← n.decodeText scope c.label
    return { d with value := { c with label := d.value } }
  else if name == Bytes.ofString "enable" then
    let d ← n.decodeTruth scope c.enabled
    return { d with value := { c with enabled := d.value } }
  else if name == Bytes.ofString "input" then
    let d ← n.decodeText scope c.input
    return { d with value := { c with input := d.value } }
  else
    let d ←
      n.decodeMapping expectedShape (fun e => some (e.getD [])) (fun _ => none) scope c.expected?
    return { d with value := { c with expected? := d.value } }

/-- Cases are mappings with four parts. -/
def shape : Shape Case where
  wanted := Bytes.ofString "utils.TestData"
  parts? := some ["label", "enable", "input", "expected"]
  decode := decodePart

/-- Decodes the cases of a table in order. An item that is nothing is no case. -/
def decodeAll (scope : Scope) : List Node → Decoding (Decoded (List Case))
  | [] => return { value := [] }
  | n :: rest => do
    let d ← n.decodeMapping shape id id scope {}
    let later ← decodeAll scope rest
    return {
      value := if d.given then d.value :: later.value else later.value
      errors := d.errors ++ later.errors }

/-- Decodes a table. -/
def decodeTable (d : Document) : Decoding (Decoded (List Case)) := do
  let wanted := Bytes.ofString "[]utils.TestData"
  match d.root? with
  | none => return { value := [] }
  | some n =>
    let (n, s) ← (scope d).resolve n
    match n with
    | .sequence _ _ items => decodeAll s items
    | .scalar _ tag text =>
      match ← datum? tag text with
      | .nothing => return { value := [] }
      | _ => return { value := [], errors := [n.mismatch wanted] }
    | _ => return { value := [], errors := n.mismatches wanted }

/-- Reads the enabled cases of a table. -/
def readTable (text : Bytes) : Except Unusable (List Case) :=
  match read? text >>= fun d => (decodeTable d).run {} with
  | none => .error .malformed
  | some (d, _) =>
    if d.errors.isEmpty then .ok (d.value.filter Case.enabled) else .error (.illTyped d.errors)

end Case

end Reckon
