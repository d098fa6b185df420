import Reckon.Document.Reader
import Reckon.Number.Decimal
import Reckon.Text.Quoted

/-!
# Decoding documents

Nodes are decoded into texts, truth values and mappings. A node of the wrong kind, or
a key given twice, is an error at its line; errors are collected and decoding goes
on. Where a value is wanted and nothing is given, the value stays as it was.

A mapping may merge others into itself: their entries count unless the mapping, or one
merged before, has an entry with the same key. Some faults make the whole document
unusable: a scalar that is not what its tag says, a merge of something that is no
mapping, a reference met again while the node that it refers to is decoded, and more
nodes decoded by way of references than a document of that size may have.
-/

namespace Reckon

namespace Document

/-! ## Errors -/

/-- What is wrong with a node. -/
inductive Complaint
  /-- A node of one kind where another type is wanted. -/
  | mismatch (tag : Tag) (text : Bytes) (wanted : Bytes)
  /-- A key that the mapping already has. -/
  | repeatedKey (key : Bytes) (first : Nat)
  /-- A part of a value that is already given, by a key written in another way. -/
  | repeatedPart (name wanted : Bytes)
  deriving DecidableEq, Repr

/-- An error at a line of a document. -/
structure DecodeError where
  line : Nat
  complaint : Complaint
  deriving DecidableEq, Repr

/-- A text as errors show it: long ones are cut. -/
def excerpt (text : Bytes) : Bytes :=
  Ascii.space :: Ascii.backtick
    :: (if 10 < text.length then text.take 7 ++ Bytes.ofString "..." else text)
    ++ [Ascii.backtick]

/-- The wording of a complaint. -/
def Complaint.text : Complaint → Bytes
  | mismatch tag text wanted =>
    Bytes.ofString "cannot unmarshal " ++ tag.name
      ++ (if tag = .seq ∨ tag = .map then text else excerpt text)
      ++ Bytes.ofString " into " ++ wanted
  | repeatedKey key first =>
    Bytes.ofString "mapping key " ++ key.quoted ++ Bytes.ofString " already defined at line "
      ++ Bytes.digits first
  | repeatedPart name wanted =>
    Bytes.ofString "field " ++ name ++ Bytes.ofString " already set in type " ++ wanted

/-- The wording of an error. -/
def DecodeError.text (e : DecodeError) : Bytes :=
  Bytes.ofString "line " ++ Bytes.digits e.line ++ Bytes.ofString ": " ++ e.complaint.text

/-- The wording of all errors of a document. -/
def errorsText (errors : List DecodeError) : Bytes :=
  Bytes.ofString "yaml: unmarshal errors:"
    ++ errors.flatMap fun e => Bytes.ofString "\n  " ++ e.text

/-- Why a document cannot be used. -/
inductive Unusable
  | malformed
  | illTyped (errors : List DecodeError)
  deriving DecidableEq, Repr

/-! ## Tallies -/

/-- How many nodes have been decoded, the document being the first, and how many of them
by way of references. -/
structure Tally where
  nodes : Nat := 1
  referenced : Nat := 0
  deriving DecidableEq, Repr

namespace Tally

/-- The share of the nodes decoded that references may lead to. It is the same up to
the first bound and from the second one on, and falls evenly between them. -/
def allowedShare (nodes : Nat) : Double :=
  if nodes ≤ fewNodes then most
  else if manyNodes ≤ nodes then (Decimal.mk 10 (-2)).toDouble false
  else
    let beyond := (Double.ofInt (nodes - fewNodes)).div (Double.ofInt (manyNodes - fewNodes))
    most.sub (((Decimal.mk 89 (-2)).toDouble false).mul beyond)
where
  fewNodes : Nat := 400000
  manyNodes : Nat := 4000000
  most : Double := (Decimal.mk 99 (-2)).toDouble false

/-- Whether too many nodes have been decoded by way of references; small numbers never
are too many. -/
def isExcessive (t : Tally) : Bool :=
  100 < t.referenced && 1000 < t.nodes
    && (allowedShare t.nodes).less ((Double.ofInt t.referenced).div (Double.ofInt t.nodes))

/-- The tally with one more node. -/
def add (t : Tally) (byReference : Bool) : Tally :=
  ⟨t.nodes + 1, if byReference then t.referenced + 1 else t.referenced⟩

end Tally

/-- Decoding counts nodes, and ends where the document turns out to be unusable. -/
abbrev Decoding := StateT Tally Option

/-! ## Scopes -/

/-- What decoding knows: the anchored nodes, the references that are being followed,
and a bound on how deep mappings can be merged into one another. -/
structure Scope where
  anchored : List (Nat × Node)
  depth : Nat
  following : List Nat := []

/-- The scope of a document. Merged mappings are nested in the text or by references,
and no reference is followed from within itself. -/
def scope (d : Document) : Scope where
  anchored := d.anchored
  depth := (d.size + 1) * (d.size + 1)

/-- Counts a node. -/
def Scope.count (s : Scope) : Decoding Unit := fun t =>
  let t := t.add !s.following.isEmpty
  if t.isExcessive then none else some ((), t)

/-- Counts a node and gives the node that it stands for. A reference is not followed from
within itself. -/
def Scope.resolve (s : Scope) (n : Node) : Decoding (Node × Scope) := do
  s.count
  match n with
  | .reference _ _ occurrence target =>
    if s.following.contains occurrence then failure
    else
      let inner := { s with following := occurrence :: s.following }
      inner.count
      return (← s.anchored.lookup target, inner)
  | n => return (n, s)

/-- What decoding gives: a value, whether the node gave one, and the errors met. -/
structure Decoded (α : Type) where
  value : α
  given : Bool := true
  errors : List DecodeError := []

/-- The errors of keys given more than once, by the key given first. -/
def repeatedKeys : List (Node × Node) → List DecodeError
  | [] => []
  | (key, _) :: rest =>
    ((rest.filter fun later => key.sameKey later.1).map fun later =>
      ⟨later.1.line, .repeatedKey later.1.text key.line⟩) ++ repeatedKeys rest

namespace Node

/-- The error of a node where another type is wanted. -/
def mismatch (n : Node) (wanted : Bytes) : DecodeError :=
  ⟨n.line, .mismatch n.tag n.text wanted⟩

/-- The errors of a node where a type called `wanted` does not admit it. -/
def mismatches (n : Node) (wanted : Bytes) : List DecodeError :=
  match n with
  | mapping _ _ entries =>
    match repeatedKeys entries with
    | [] => [n.mismatch wanted]
    | errors => errors
  | _ => [n.mismatch wanted]

/-- A node that leaves a value as it was. -/
def leaves {α : Type} (value : α) (errors : List DecodeError) : Decoded α :=
  { value, given := false, errors }

/-! ## Scalars -/

/-- Decodes a text: any scalar as it is written. -/
def decodeText (s : Scope) (n : Node) (value : Bytes) : Decoding (Decoded Bytes) := do
  let (n, _) ← s.resolve n
  match n with
  | scalar _ tag text =>
    match ← datum? tag text with
    | .nothing => return leaves value []
    | .text t => return { value := if tag = .binary then t else text }
    | _ => return { value := text }
  | _ => return leaves value (n.mismatches (Bytes.ofString "string"))

/-- Decodes a truth value. -/
def decodeTruth (s : Scope) (n : Node) (value : Bool) : Decoding (Decoded Bool) := do
  let wanted := Bytes.ofString "bool"
  let (n, _) ← s.resolve n
  match n with
  | scalar _ tag text =>
    match ← datum? tag text with
    | .nothing => return leaves value []
    | .truth b => return { value := b }
    | .text t =>
      match looseTruth? t with
      | some b => return { value := b }
      | none => return leaves value [n.mismatch wanted]
    | .other => return leaves value [n.mismatch wanted]
  | _ => return leaves value (n.mismatches wanted)

end Node

/-! ## Mappings -/

/-- How a mapping is decoded into values of a type. -/
structure Shape (α : Type) where
  /-- The name of the type. -/
  wanted : Bytes
  /-- The names of the parts, if only some keys name parts; each part is given once. -/
  parts? : Option (List String)
  /-- Decodes the value of a key. -/
  decode : Scope → Bytes → Node → α → Decoding (Decoded α)

/-- Where the decoding of a mapping stands: the value so far, the errors met, the parts
given, and, while mappings are merged, the keys that count no more. -/
structure Progress (α : Type) where
  value : α
  errors : List DecodeError := []
  parts : List Bytes := []
  taken? : Option (List Bytes) := none

namespace Progress

variable {α : Type}

/-- Adds errors. -/
def complain (p : Progress α) (errors : List DecodeError) : Progress α :=
  { p with errors := p.errors ++ errors }

/-- Decodes the value of a key into its part. -/
def decodePart (sh : Shape α) (s : Scope) (key value : Node) (name : Bytes) (p : Progress α) :
    Decoding (Progress α) := do
  let known := sh.parts?.all fun names => names.any fun part => Bytes.ofString part == name
  if !known then return p
  else if sh.parts?.isSome && p.parts.contains name then
    return p.complain [⟨key.line, .repeatedPart name sh.wanted⟩]
  else
    let d ← sh.decode s name value p.value
    return { p.complain d.errors with value := d.value, parts := name :: p.parts }

/-- Decodes an entry, unless its key is nothing or counts no more. -/
def decodeEntry (sh : Shape α) (s : Scope) (p : Progress α) (entry : Node × Node) :
    Decoding (Progress α) := do
  if entry.1.isMerge then return p
  else
    let key ← entry.1.decodeText s []
    let p := p.complain key.errors
    if !key.given then return p
    else
      match p.taken? with
      | none => p.decodePart sh s entry.1 entry.2 key.value
      | some taken =>
        if taken.contains key.value then return p
        else
          let p := { p with taken? := some (key.value :: taken) }
          p.decodePart sh s entry.1 entry.2 key.value

end Progress

/-- The keys of a mapping that keep merged entries with the same key out: those that
are texts. Collections cannot be compared with keys. -/
def ownKeys (s : Scope) : List (Node × Node) → Decoding (List Bytes)
  | [] => return []
  | (key, _) :: rest => do
    let (key, _) ← s.resolve key
    match key with
    | .scalar _ tag text =>
      match ← datum? tag text with
      | .text t => return t :: (← ownKeys s rest)
      | _ => ownKeys s rest
    | _ => failure

/-- The mappings that the value of a merging key stands for. -/
def mergedNodes? (s : Scope) (n : Node) : Option (List Node) :=
  match n with
  | .mapping .. => some [n]
  | .reference .. => if standsForMapping n then some [n] else none
  | .sequence _ _ items => if items.all standsForMapping then some items else none
  | .scalar .. => none
where
  standsForMapping : Node → Bool
    | .mapping .. => true
    | .reference _ _ _ target =>
      match s.anchored.lookup target with
      | some (.mapping ..) | none => true
      | some _ => false
    | _ => false

/-- Decodes a mapping into a value, its own entries first. -/
def decodeEntries {α : Type} (sh : Shape α) :
    (fuel : Nat) → Scope → List (Node × Node) → Progress α → Decoding (Progress α)
  | 0, _, _, _ => failure
  | fuel + 1, s, entries, p =>
    match repeatedKeys entries with
    | [] => do
      let own ← entries.foldlM (Progress.decodeEntry sh s) { p with parts := [] }
      match entries.reverse.find? fun entry => entry.1.isMerge with
      | none => return own
      | some (_, merged) => do
        let taken ←
          match own.taken? with
          | some taken => pure taken
          | none => ownKeys s entries
        let p ←
          (← mergedNodes? s merged).foldlM
            (fun p n => do
              let (n, s) ← s.resolve n
              match n with
              | .mapping _ _ entries => decodeEntries sh fuel s entries p
              | _ => failure)
            { own with taken? := some taken }
        return { p with taken? := own.taken?.map fun _ => p.taken?.getD [] }
    | errors => return p.complain errors

/-- Decodes a mapping. `start` is applied to the value before the first entry, and
`cleared` is the value that nothing gives. -/
def Node.decodeMapping {α : Type} (sh : Shape α) (start cleared : α → α) (s : Scope) (n : Node)
    (value : α) : Decoding (Decoded α) := do
  let (n, s) ← s.resolve n
  match n with
  | .mapping _ _ entries =>
    let p ← decodeEntries sh s.depth s entries { value := start value }
    return { value := p.value, errors := p.errors }
  | .scalar _ tag text =>
    match ← datum? tag text with
    | .nothing => return leaves (cleared value) []
    | _ => return leaves value [n.mismatch sh.wanted]
  | _ => return leaves value [n.mismatch sh.wanted]

end Document

end Reckon
