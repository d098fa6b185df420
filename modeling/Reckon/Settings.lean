import Reckon.Document.Decode

/-!
# Settings

The user's settings are read from a document over a base. A document that cannot
be used leaves the base; a prompt or history path that ends up empty falls back to
the base's.
-/

namespace Reckon

/-- The settings of the command. -/
structure Settings where
  /-- Shown before every line of the prompt loop. -/
  prompt : Bytes := []
  /-- The name of the form to print in; empty to evaluate. -/
  print : Bytes := []
  /-- The path of the history file. -/
  history : Bytes := []
  deriving DecidableEq, Repr

namespace Settings

open Document

/-- Decodes one named setting. -/
def decodePart (scope : Scope) (name : Bytes) (n : Node) (s : Settings) :
    Decoding (Decoded Settings) := do
  if name == Bytes.ofString "prompt" then
    let d ← n.decodeText scope s.prompt
    return { d with value := { s with prompt := d.value } }
  else if name == Bytes.ofString "print" then
    let d ← n.decodeText scope s.print
    return { d with value := { s with print := d.value } }
  else
    let d ← n.decodeText scope s.history
    return { d with value := { s with history := d.value } }

/-- Settings are mappings with three parts. -/
def shape : Shape Settings where
  wanted := Bytes.ofString "config.Config"
  parts? := some ["prompt", "print", "history"]
  decode := decodePart

/-- Settings in which empty texts are replaced by the base's where they must not
be empty. -/
def orElse (s base : Settings) : Settings :=
  { s with
    prompt := if s.prompt.isEmpty then base.prompt else s.prompt
    history := if s.history.isEmpty then base.history else s.history }

/-- Decodes a document over a base. -/
def decode (d : Document) (base : Settings) : Decoding (Decoded Settings) :=
  match d.root? with
  | none => return { value := base }
  | some n => n.decodeMapping shape id id (scope d) base

/-- Reads settings over a base. -/
def read (text : Bytes) (base : Settings) : Except Unusable Settings :=
  match read? text >>= fun d => (decode d base).run {} with
  | none => .error .malformed
  | some (d, _) =>
    if d.errors.isEmpty then .ok (d.value.orElse base) else .error (.illTyped d.errors)

end Settings

end Reckon
