import Reckon.Document.Tag

/-!
# Document nodes

A document is a tree of scalars, sequences and mappings, each knowing its tag and
the line it starts on. A node with an anchor can be used again by references. Anchored
nodes are kept beside the tree, because one may hold a reference to itself.
-/

namespace Reckon

namespace Document

/-- A node of a document. -/
inductive Node
  | scalar (line : Nat) (tag : Tag) (text : Bytes)
  | sequence (line : Nat) (tag : Tag) (items : List Node)
  | mapping (line : Nat) (tag : Tag) (entries : List (Node × Node))
  /-- A reference, told apart from others by `occurrence`, to the anchored node with
  the number `target`. -/
  | reference (line : Nat) (name : Bytes) (occurrence target : Nat)

namespace Node

/-- The line on which a node starts. -/
def line : Node → Nat
  | scalar line .. => line
  | sequence line .. => line
  | mapping line .. => line
  | reference line .. => line

/-- The text of a scalar or the name in a reference; collections have none. -/
def text : Node → Bytes
  | scalar _ _ text => text
  | reference _ name _ _ => name
  | sequence .. | mapping .. => []

/-- The tag of a node; a reference is taken for nothing by itself. -/
def tag : Node → Tag
  | scalar _ tag _ => tag
  | sequence _ tag _ => tag
  | mapping _ tag _ => tag
  | reference .. => .other []

/-- The node of a value that is not there. -/
def absent (line : Nat) : Node := scalar line .null []

/-- Whether a node is the key that merges other mappings into its own. -/
def isMerge : Node → Bool
  | scalar _ tag text => tag = .merge ∧ text = mergeWord
  | _ => false

/-- Whether two keys are the same: of one kind and with one text. -/
def sameKey : Node → Node → Bool
  | scalar _ _ s, scalar _ _ t => s == t
  | reference _ s _ _, reference _ t _ _ => s == t
  | sequence .., sequence .. => true
  | mapping .., mapping .. => true
  | _, _ => false

end Node

end Document

/-- A document: its tree, if it has one, its anchored nodes by number, and how many
lexemes it has. -/
structure Document where
  root? : Option Document.Node
  anchored : List (Nat × Document.Node)
  size : Nat

end Reckon
