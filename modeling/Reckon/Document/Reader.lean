import Reckon.Document.Node
import Reckon.Document.Outline

/-!
# Reading documents

Nodes are built from lexemes. The reader keeps what is left of the lexemes, the
anchors set so far and the nodes built for them. A text may hold several documents;
only the first one is read, and the rest of the text matters only as far as the
outline has to be drawn up to the end of the document.
-/

namespace Reckon

namespace Document

/-- What the reader knows. -/
structure Reading where
  rest : List Lexeme
  /-- What handles are short for. -/
  handles : List (Bytes × Bytes) := []
  /-- The numbers of anchored nodes by the names of anchors, the latest first. -/
  anchors : List (Bytes × Nat) := []
  /-- The anchored nodes that have been built. -/
  anchored : List (Nat × Node) := []

namespace Reading

/-- What the next lexeme says. -/
def sign? (r : Reading) : Option Sign := r.rest.head?.map Lexeme.sign

/-- The line of the next lexeme. -/
def line (r : Reading) : Nat := (r.rest.head?.map Lexeme.line).getD 0

/-- Takes a lexeme. -/
def drop (r : Reading) : Reading := { r with rest := r.rest.drop 1 }

/-- Whether the next lexeme is one of the given ones. -/
def startsWith (r : Reading) (signs : List Sign) : Bool :=
  r.rest.head?.any fun l => signs.contains l.sign

/-- Takes a comma. -/
def afterComma? (r : Reading) : Option Reading :=
  if r.sign? == some .comma then some r.drop else none

/-! ## Properties -/

/-- What stands before a node: its anchor with the number of the node, and its tag. -/
structure Properties where
  line : Nat
  anchor? : Option (Bytes × Nat) := none
  tag? : Option Bytes := none

/-- The full name of a tag with a handle. -/
def fullTag? (r : Reading) (handle suffix : Bytes) : Option Bytes :=
  if handle.isEmpty then some suffix
  else (r.handles.lookup handle).map (· ++ suffix)

/-- Takes an anchor, if one is next and none has been taken. -/
def takeAnchor (r : Reading) (p : Properties) : Properties × Reading :=
  match r.sign?, p.anchor? with
  | some (.anchor name), none =>
    let number := r.rest.length
    ({ p with anchor? := some (name, number) },
      { r.drop with anchors := (name, number) :: r.anchors })
  | _, _ => (p, r)

/-- Takes a tag, if one is next and none has been taken. -/
def takeTag (r : Reading) (p : Properties) : Option (Properties × Reading) :=
  match r.sign?, p.tag? with
  | some (.tag handle suffix), none => do
    return ({ p with tag? := some (← r.fullTag? handle suffix) }, r.drop)
  | _, _ => some (p, r)

/-- Takes an anchor and a tag in any order. -/
def properties (r : Reading) : Option (Properties × Reading) := do
  let (p, r) := r.takeAnchor { line := r.line }
  let (p, r) ← r.takeTag p
  return r.takeAnchor p

/-- Whether there is a property. -/
def Properties.any (p : Properties) : Bool := p.anchor?.isSome || p.tag?.isSome

/-- The tag that a node with properties has, given the one it has by itself. The lone
mark changes nothing. -/
def Properties.tag (p : Properties) (own : Tag) : Tag :=
  match p.tag? with
  | none => own
  | some name => if name == [Ascii.bang] then own else .ofName name

/-- The tag of a scalar without a written tag. -/
def scalarTag (plain : Bool) (text : Bytes) : Tag :=
  if !plain then .str else if text == mergeWord then .merge else .ofPlain true text

/-- Notes that a node has been built, if it has an anchor. -/
def built (p : Properties) (n : Node) (r : Reading) : Node × Reading :=
  match p.anchor? with
  | none => (n, r)
  | some (_, number) => (n, { r with anchored := (number, n) :: r.anchored })

/-! ## Nodes -/

mutual

/-- Builds a node. Block collections are built only where `block` allows them, and a
sequence without an indentation of its own only where `loose` does. -/
def node : (fuel : Nat) → (block loose : Bool) → Reading → Option (Node × Reading)
  | 0, _, _, _ => none
  | fuel + 1, block, loose, r =>
    match r.sign? with
    | some (.reference name) => do
      let target ← r.anchors.lookup name
      return (.reference r.line name r.rest.length target, r.drop)
    | _ => do
      let (p, r) ← r.properties
      match r.sign? with
      | some (.scalar plain text) =>
        return built p (.scalar p.line (p.tag (scalarTag plain text)) text) r.drop
      | some .flowSequence => do
        let (items, r) ← flowItems fuel true [] r.drop
        return built p (.sequence p.line (p.tag .seq) items) r
      | some .flowMapping => do
        let (entries, r) ← flowEntries fuel true [] r.drop
        return built p (.mapping p.line (p.tag .map) entries) r
      | sign? =>
        if loose && sign? == some .item then do
          let (items, r) ← looseItems fuel [] r
          return built p (.sequence p.line (p.tag .seq) items) r
        else if block && sign? == some .blockSequence then do
          let (items, r) ← blockItems fuel [] r.drop
          return built p (.sequence p.line (p.tag .seq) items) r
        else if block && sign? == some .blockMapping then do
          let (entries, r) ← blockEntries fuel [] r.drop
          return built p (.mapping p.line (p.tag .map) entries) r
        else if p.any then return built p (.scalar p.line (p.tag .null) []) r
        else none

/-- Builds a node, or the node of nothing before one of the given lexemes. -/
def nodeUnless : (fuel : Nat) → (ends : List Sign) → (block loose : Bool) → (line : Nat) →
    Reading → Option (Node × Reading)
  | 0, _, _, _, _, _ => none
  | fuel + 1, ends, block, loose, line, r =>
    if r.startsWith ends then some (.absent line, r) else node fuel block loose r

/-- Builds the items of a block sequence, after the ones already built. -/
def blockItems : (fuel : Nat) → List Node → Reading → Option (List Node × Reading)
  | 0, _, _ => none
  | fuel + 1, items, r =>
    match r.sign? with
    | some .item => do
      let (item, r) ← nodeUnless fuel [.item, .blockEnd] true false r.line r.drop
      blockItems fuel (items ++ [item]) r
    | some .blockEnd => some (items, r.drop)
    | _ => none

/-- Builds the items of a sequence that stands in the column of its key. -/
def looseItems : (fuel : Nat) → List Node → Reading → Option (List Node × Reading)
  | 0, _, _ => none
  | fuel + 1, items, r =>
    match r.sign? with
    | some .item => do
      let (item, r) ← nodeUnless fuel [.item, .key, .value, .blockEnd] true false r.line r.drop
      looseItems fuel (items ++ [item]) r
    | some _ => some (items, r)
    | none => none

/-- Builds the entries of a block mapping. -/
def blockEntries : (fuel : Nat) → List (Node × Node) → Reading →
    Option (List (Node × Node) × Reading)
  | 0, _, _ => none
  | fuel + 1, entries, r =>
    match r.sign? with
    | some .key => do
      let ends := [Sign.key, .value, .blockEnd]
      let (key, r) ← nodeUnless fuel ends true true r.line r.drop
      let (value, r) ←
        match r.sign? with
        | some .value => nodeUnless fuel ends true true r.line r.drop
        | some _ => some (.absent r.line, r)
        | none => none
      blockEntries fuel (entries ++ [(key, value)]) r
    | some .blockEnd => some (entries, r.drop)
    | _ => none

/-- Builds the items of a sequence between brackets. -/
def flowItems : (fuel : Nat) → (first : Bool) → List Node → Reading →
    Option (List Node × Reading)
  | 0, _, _, _ => none
  | fuel + 1, first, items, r => do
    if r.sign? == some .flowSequenceEnd then some (items, r.drop)
    else
      let r ← if first then some r else r.afterComma?
      match r.sign? with
      | some .flowSequenceEnd => some (items, r.drop)
      | some .key => do
        let (pair, r) ← flowPair fuel r.line r.drop
        flowItems fuel false (items ++ [pair]) r
      | _ => do
        let (item, r) ← node fuel false false r
        flowItems fuel false (items ++ [item]) r

/-- Builds an item of a sequence that is a mapping of one entry. A key that is not
there takes the lexeme in its place with it. -/
def flowPair : (fuel : Nat) → (line : Nat) → Reading → Option (Node × Reading)
  | 0, _, _ => none
  | fuel + 1, line, r => do
    let (key, r) ←
      if r.startsWith [.value, .comma, .flowSequenceEnd] then some (.absent r.line, r.drop)
      else node fuel false false r
    let (value, r) ← flowValue fuel .flowSequenceEnd r
    return (.mapping line .map [(key, value)], r)

/-- Builds the value of a key between brackets; it may be left out. -/
def flowValue : (fuel : Nat) → (ending : Sign) → Reading → Option (Node × Reading)
  | 0, _, _ => none
  | fuel + 1, ending, r =>
    match r.sign? with
    | some .value => nodeUnless fuel [.comma, ending] false false r.drop.line r.drop
    | some _ => some (.absent r.line, r)
    | none => none

/-- Builds the entries of a mapping between brackets. -/
def flowEntries : (fuel : Nat) → (first : Bool) → List (Node × Node) → Reading →
    Option (List (Node × Node) × Reading)
  | 0, _, _, _ => none
  | fuel + 1, first, entries, r => do
    if r.sign? == some .flowMappingEnd then some (entries, r.drop)
    else
      let r ← if first then some r else r.afterComma?
      match r.sign? with
      | some .flowMappingEnd => some (entries, r.drop)
      | some .key => do
        let ends := [Sign.value, .comma, .flowMappingEnd]
        let (key, r) ← nodeUnless fuel ends false false r.drop.line r.drop
        let (value, r) ← flowValue fuel .flowMappingEnd r
        flowEntries fuel false (entries ++ [(key, value)]) r
      | _ => do
        let (key, r) ← node fuel false false r
        flowEntries fuel false (entries ++ [(key, .absent r.line)]) r

end

/-! ## Documents -/

/-- The handles that every document has. -/
def usualHandles : List (Bytes × Bytes) :=
  [([Ascii.bang], [Ascii.bang]), ([Ascii.bang, Ascii.bang], usualTags)]

/-- Takes directives. A version other than 1.1 is not known, and nothing may be given
twice. -/
def directives : (versioned : Bool) → Reading → List Lexeme → Option Reading
  | versioned, r, l :: rest =>
    match l.sign with
    | .version major minor =>
      if versioned || major ≠ 1 || minor ≠ 1 then none else directives true r rest
    | .handle name expansion =>
      if (r.handles.lookup name).isSome then none
      else directives versioned { r with handles := r.handles ++ [(name, expansion)] } rest
    | _ => some { r with rest := l :: rest, handles := r.handles ++ usualHandles }
  | _, _, [] => none

/-- Whether a lexeme ends a document in which nothing has come. -/
def endsEmpty : Sign → Bool
  | .version .. | .handle .. | .documentStart | .documentEnd | .finish => true
  | _ => false

/-- Builds the tree of the first document and gives what is left; there may be
no document. -/
def tree (r : Reading) : Option (Option Node × Reading) := do
  let fuel := 4 * r.rest.length + 4
  match r.sign? with
  | none => none
  | some .finish => some (none, r)
  | some (.version ..) | some (.handle ..) | some .documentStart => do
    let r ← directives false r r.rest
    if r.sign? ≠ some .documentStart then none
    else
      let r := r.drop
      match r.sign? with
      | none => none
      | some sign =>
        if endsEmpty sign then return (some (.absent r.line), r)
        else
          let (n, r) ← node fuel true false r
          return (some n, r)
  | some _ => do
    let (n, r) ← node fuel true false { r with handles := usualHandles }
    return (some n, r)

end Reading

/-- Reads the first document of a text; none if it is malformed. -/
def read? (text : Bytes) : Option Document := do
  let (cs, whole) := characters text
  let (outline, flawed) := Outline.run (cs.length + 2) { cursor := { rest := cs }, whole }
  let (root?, r) ← Reading.tree { rest := outline.lexemes }
  let taken := outline.lexemes.length - r.rest.length
  if flawed && outline.ready ≤ taken then none else some ⟨root?, r.anchored, taken⟩

end Document

end Reckon
